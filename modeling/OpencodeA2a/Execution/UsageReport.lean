import OpencodeA2a.Execution.Reconstruction

/-!
# The usage a completed run reports

The consumer merges the usage of the stream's events into one record; the
coordinator merges that record into the usage of the response as soon as it has
the response, and only then waits for the terminal signal.
-/

namespace OpencodeA2a.Execution

open OpencodeA2a.Stream

variable {r r' : Run} {c : Consumer} {act : RunAction}

/-! ## §1  The usage events of a run -/

/-- The usage that the consumer merges in this step. -/
def Run.ingests (r : Run) : RunAction → List Mapping
  | .consume =>
      match r.consumer with
      | some ⟨.busy [] (.usage u :: _), false⟩ => [u]
      | _ => []
  | _ => []

/-- The same, up to the terminal signal. -/
def Run.ingestsBeforeSignal (r : Run) (act : RunAction) : List Mapping :=
  if r.signal.isNone then r.ingests act else []

/-- The usage events of a run that were ingested up to its terminal signal. -/
def ingestedUsage (prepared : PreparedExecution) (acts : List RunAction) : List Mapping :=
  Machine.gather Run.act Run.ingestsBeforeSignal (Run.initial prepared) acts

/-- The events merged, in the order they came. -/
def totalUsage (us : List Mapping) : Option Mapping :=
  us.foldl (fun total u => mergeTokenUsage total (some u)) none

theorem totalUsage_concat (us : List Mapping) (u : Mapping) :
    totalUsage (us ++ [u]) = mergeTokenUsage (totalUsage us) (some u) := by
  unfold totalUsage
  rw [List.foldl_append]
  rfl

/-- A usage event that is ingested after the response was handled changes nothing
in what the response's usage and that of the stream come to. -/
def Timely (r : Run) (act : RunAction) : Prop :=
  ∀ response, r.handled = some response → ∀ u ∈ r.ingests act,
    mergeTokenUsage (r.prepared.numerics.extractTokenUsage response.raw)
        (mergeTokenUsage r.runtime.out.tokenUsage (some u)) = r.resolvedTokenUsage response

/-! ## §2  What the moves do to the report -/

/-- The coordinator has not come to the response yet. -/
def Stage.unanswered : Stage → Bool
  | .registering | .binding | .locking | .entering | .waiting | .recording | .snapshot | .sending
  | .finalizing _ | .tools _ => true
  | _ => false

/-- A completed status with this metadata is in the queue, or on its way there. -/
def Run.Reports (r : Run) (metadata : OutputMetadata) : Prop :=
  (.run, .status .completed metadata) ∈ r.queue ∨
    ∃ e rest, r.stage = .emitting e rest ∧ .status .completed metadata ∈ e :: rest

/-- What the coordinator's move does to the response and its usage. -/
structure Run.SameAnswer (r r' : Run) : Prop where
  prepared : r'.prepared = r.prepared
  handled : r'.handled = r.handled
  usage : r'.usage = r.usage
  tokenUsage : r'.runtime.out.tokenUsage = r.runtime.out.tokenUsage

namespace Run

theorem SameAnswer.of_eq (hprepared : r'.prepared = r.prepared) (hhandled : r'.handled = r.handled)
    (husage : r'.usage = r.usage) (hruntime : r'.runtime = r.runtime) : r.SameAnswer r' :=
  ⟨hprepared, hhandled, husage, by rw [hruntime]⟩

theorem sameAnswer_emitError (r : Run) (b : Bool) (e : ErrorReport) :
    r.SameAnswer (r.emitError b e) := by
  cases b <;> exact .of_eq rfl rfl rfl rfl

theorem sameAnswer_stopConsumer (r : Run) : r.SameAnswer r.stopConsumer := by
  unfold Run.stopConsumer
  split <;> exact .of_eq rfl rfl rfl rfl

theorem sameAnswer_cleanup (r : Run) : r.SameAnswer r.cleanup := by
  unfold Run.cleanup
  split
  · exact .of_eq rfl rfl rfl rfl
  · exact sameAnswer_stopConsumer r

theorem sameAnswer_complete (r : Run) (response : OpencodeMessage) :
    r.SameAnswer (r.complete response) := by
  unfold Run.complete
  simp only
  split
  · exact .of_eq rfl rfl rfl rfl
  · rename_i out hout
    have hrecords := StreamOutputState.shouldEmitFinalSnapshot_records hout
    exact ⟨rfl, rfl, rfl, hrecords.tokenUsage⟩

theorem sameAnswer_thrown (r : Run) : r.SameAnswer r.thrown := by
  unfold Run.thrown
  simp only
  split
  · exact .of_eq rfl rfl rfl rfl
  · exact .of_eq rfl rfl rfl rfl
  · exact .of_eq rfl rfl rfl rfl
  · have h := sameAnswer_cleanup { r with cancelRequested := false }
    exact ⟨h.prepared, h.handled, h.usage, h.tokenUsage⟩

/-- The response is handled once the tools have no more results; no other move
touches it. -/
theorem Resumes.answer {stage : Stage} (h : r.Resumes stage r') : r.SameAnswer r' ∨
    ∃ response, stage = .tools response ∧ r'.handled = some response ∧
      r'.usage = r.resolvedTokenUsage response ∧ r'.prepared = r.prepared ∧
      r'.runtime = r.runtime ∧ r'.stage.unanswered = false := by
  cases h with
  | handle response =>
      refine .inr ⟨response, rfl, ?_⟩
      unfold Run.handleResponse
      simp only
      split
      · unfold Run.emitError
        split <;> exact ⟨rfl, rfl, rfl, rfl, rfl⟩
      · split <;> exact ⟨rfl, rfl, rfl, rfl, rfl⟩
  | record =>
      left
      unfold Run.afterRecording
      split <;> split <;> exact .of_eq rfl rfl rfl rfl
  | signal response signal =>
      left
      cases signal with
      | error e => exact sameAnswer_emitError r true _
      | completed =>
          simp only [Run.handleSignal]
          split
          · exact sameAnswer_emitError r true _
          · exact sameAnswer_complete r response
  | noSignal | fail => exact .inl (sameAnswer_emitError r _ _)
  | emitLast e =>
      have h := sameAnswer_cleanup (r.put .run e)
      exact .inl ⟨h.prepared, h.handled, h.usage, h.tokenUsage⟩
  | release => exact .inl (sameAnswer_stopConsumer r)
  | register | bind | lock | acquireAtOnce | wait | acquire | snapshot | respond | finalize | turn
  | emit | stop | check | unregister =>
      exact .inl (.of_eq rfl rfl rfl rfl)

theorem emitting_handleSignal (r : Run) (response : OpencodeMessage) (signal : TerminalSignal) :
    ∃ e rest, (r.handleSignal response signal).stage = .emitting e rest := by
  cases signal with
  | error e => exact ⟨_, _, rfl⟩
  | completed =>
      simp only [Run.handleSignal]
      split
      · exact ⟨_, _, rfl⟩
      · unfold Run.complete
        simp only
        split <;> exact ⟨_, _, rfl⟩

/-- The coordinator does not come back to before the response. -/
theorem Resumes.unanswered {stage : Stage} (h : r.Resumes stage r')
    (hunanswered : r'.stage.unanswered = true) : stage.unanswered = true := by
  have hlate : r'.late = true → r'.stage.unanswered = false := by
    intro hl
    unfold Run.late at hl
    split at hl <;> rename_i hs <;> first | (rw [hs]; rfl) | cases hl
  cases h with
  | register | bind | lock | acquireAtOnce | wait | acquire | record | snapshot | respond
  | finalize | turn | handle =>
      rfl
  | signal response signal =>
      obtain ⟨e, rest, he⟩ := emitting_handleSignal r response signal
      rw [he] at hunanswered
      cases hunanswered
  | noSignal response e =>
      unfold Run.except Run.emitError at hunanswered
      simp only at hunanswered
      split at hunanswered <;> cases hunanswered
  | emitLast e =>
      rw [hlate (Run.late_cleanup _)] at hunanswered
      cases hunanswered
  | release =>
      rw [hlate (Run.late_stopConsumer r)] at hunanswered
      cases hunanswered
  | emit | stop | check | unregister => cases hunanswered
  | fail stage e hwhere =>
      rcases hwhere with rfl | rfl | rfl | ⟨response, rfl⟩ | ⟨response, rfl⟩ <;> rfl

/-- Nothing is put, and the coordinator enqueues nothing afterwards. -/
theorem Reports.of_queue {metadata : OutputMetadata} (h : r'.Reports metadata)
    (hq : r'.queue = r.queue) (hnot : ∀ e rest, r'.stage ≠ .emitting e rest) :
    r.Reports metadata := by
  rcases h with h | ⟨e, rest, hs, -⟩
  · exact .inl (hq ▸ h)
  · exact absurd hs (hnot e rest)

theorem not_emitting_of_late (h : r.late = true) : ∀ e rest, r.stage ≠ .emitting e rest := by
  intro e rest hs
  unfold Run.late at h
  rw [hs] at h
  cases h

/-- An error reports no completion. -/
theorem Reports.of_error {metadata : OutputMetadata} {b : Bool} {e : ErrorReport}
    (h : (r.emitError b e).Reports metadata) (he : e.state.IsError) : r.Reports metadata := by
  rcases h with h | ⟨x, rest, hs, hmem⟩
  · exact .inl ((silent_emitError r b e).queue ▸ h)
  · exact absurd hmem ((emitError_lastly he x rest hs).2 metadata)

/-- The status of a completed run carries the usage that was resolved. -/
theorem Reports.of_complete {metadata : OutputMetadata} {response : OpencodeMessage}
    (h : (r.complete response).Reports metadata) : r.Reports metadata ∨
      metadata.usage = if r.prepared.emitStreamingMetadata then r.usage else none := by
  rcases h with h | ⟨x, rest, hs, hmem⟩
  · exact .inl (.inl ((silent_complete r response).queue ▸ h))
  · right
    unfold Run.complete at hs
    simp only at hs
    split at hs <;> cases hs
    · cases List.mem_singleton.mp hmem
      rfl
    · simp only [List.mem_cons, List.not_mem_nil, or_false] at hmem
      rcases hmem with hcon | hcon
      · cases hcon
      · cases hcon
        rfl

/-- Completion is reported by the coordinator that has the terminal signal. -/
theorem Resumes.reports {stage : Stage} (h : r.Resumes stage r') (hs : r.stage = stage)
    (hsound : Sound r) {metadata : OutputMetadata} (hreports : r'.Reports metadata) :
    r.Reports metadata ∨ (∃ response, stage = .awaitingSignal response) ∧
      metadata.usage = if r.prepared.emitStreamingMetadata then r.usage else none := by
  cases h with
  | register | bind | lock | acquireAtOnce | wait | acquire | finalize | turn | stop | check
  | unregister =>
      exact .inl (hreports.of_queue rfl fun _ _ hcon => by cases hcon)
  | respond response =>
      refine .inl (hreports.of_queue rfl fun e rest hcon => ?_)
      cases hp : r.pending <;> simp only [hp] at hcon <;> cases hcon
  | record =>
      refine .inl (hreports.of_queue ?_ ?_)
      · unfold Run.afterRecording
        split <;> split <;> rfl
      · intro e rest hcon
        unfold Run.afterRecording at hcon
        split at hcon <;> split at hcon <;> cases hcon
  | snapshot =>
      rcases hreports with hmem | ⟨e, rest, hcon, -⟩
      · rcases List.mem_append.mp hmem with hmem | hmem
        · exact .inl (.inl hmem)
        · cases List.mem_singleton.mp hmem
      · cases hcon
  | handle response =>
      left
      unfold Run.handleResponse at hreports
      simp only at hreports
      split at hreports
      · rename_i e he
        have := Reports.of_error hreports (extractUpstreamErrorFromResponse_isError he)
        exact this.of_queue rfl fun e rest hcon => by rw [hs] at hcon; cases hcon
      · split at hreports
        · exact hreports.of_queue rfl fun _ _ hcon => by cases hcon
        · rcases hreports with hmem | ⟨e, rest, hcon, hmem⟩
          · exact .inl hmem
          · cases hcon
            cases List.mem_singleton.mp hmem
  | signal response signal hsignal =>
      cases signal with
      | error e => exact .inl (Reports.of_error hreports (hsound.signal e hsignal))
      | completed =>
          simp only [Run.handleSignal] at hreports
          split at hreports
          · rename_i e he
            exact .inl (Reports.of_error hreports (hsound.upstream e he))
          · exact (Reports.of_complete hreports).imp_right fun husage => ⟨⟨response, rfl⟩, husage⟩
  | noSignal response e => exact .inl (Reports.of_error hreports e.report_isError)
  | fail stage e => exact .inl (Reports.of_error hreports e.report_isError)
  | emit e e' rest =>
      left
      rcases hreports with hmem | ⟨x, xs, hcon, hmem⟩
      · rcases List.mem_append.mp hmem with hmem | hmem
        · exact .inl hmem
        · cases List.mem_singleton.mp hmem
          exact .inr ⟨_, _, hs, List.mem_cons_self ..⟩
      · cases hcon
        exact .inr ⟨_, _, hs, List.mem_cons_of_mem _ hmem⟩
  | emitLast e =>
      left
      have hput := hreports.of_queue (silent_cleanup (r.put .run e)).queue
        (not_emitting_of_late (Run.late_cleanup _))
      rcases hput with hmem | ⟨x, xs, hx, hmem⟩
      · rcases List.mem_append.mp hmem with hmem | hmem
        · exact .inl hmem
        · cases List.mem_singleton.mp hmem
          exact .inr ⟨_, _, hs, List.mem_cons_self ..⟩
      · exact .inr ⟨x, xs, hx, hmem⟩
  | release =>
      exact .inl (hreports.of_queue (silent_stopConsumer r).queue
        (not_emitting_of_late (Run.late_stopConsumer r)))

/-- The coordinator waits for the signal with the response in hand. -/
theorem Resumes.awaiting {stage : Stage} (h : r.Resumes stage r') {response : OpencodeMessage}
    (hs : r'.stage = .awaitingSignal response) : r'.handled ≠ none := by
  cases h with
  | handle response' =>
      unfold Run.handleResponse at hs ⊢
      simp only at hs ⊢
      split
      · rename_i e he
        simp only [he] at hs
        cases hb : r.prepared.streamingRequest <;> rw [hb] at hs <;> cases hs
      · split <;> exact Option.some_ne_none _
  | respond =>
      cases hp : r.pending <;> simp only [hp] at hs <;> cases hs
  | record =>
      unfold Run.afterRecording at hs
      split at hs <;> split at hs <;> cases hs
  | signal _ signal =>
      cases signal with
      | error e => cases hs
      | completed =>
          simp only [Run.handleSignal] at hs
          split at hs
          · cases hs
          · unfold Run.complete at hs
            simp only at hs
            split at hs <;> cases hs
  | noSignal | fail =>
      unfold Run.except Run.emitError at hs
      simp only at hs
      split at hs <;> cases hs
  | emitLast e =>
      have hlate := Run.late_cleanup (r.put .run e)
      unfold Run.late at hlate
      rw [hs] at hlate
      cases hlate
  | release =>
      unfold Run.stopConsumer at hs
      split at hs <;> cases hs
  | register | bind | lock | acquireAtOnce | wait | acquire | snapshot | finalize | turn | emit
  | stop | check | unregister =>
      cases hs

/-- The consumer is at a usage event, and merges it into the record. -/
theorem ingests_cases (hstep : r.act act = some r') : r.ingests act = [] ∨
    ∃ u ops, r.consumer = some ⟨.busy [] (.usage u :: ops), false⟩ ∧ r.ingests act = [u] ∧
      r'.runtime.out.tokenUsage = mergeTokenUsage r.runtime.out.tokenUsage (some u) := by
  cases act with
  | consume =>
      simp only [Run.ingests]
      split
      · rename_i u ops hc
        right
        simp only [Run.act, Run.consume, hc, Bool.false_eq_true, if_false] at hstep
        cases hstep
        exact ⟨u, ops, hc, rfl, rfl⟩
      · exact .inl rfl
  | step | deliver | close | streamFails | cancel | cancelStep => exact .inl rfl

/-- Where no usage event is ingested, the record stays as it is. -/
theorem Consumes.tokenUsage (h : r.Consumes c act r') (hc : r.consumer = some c)
    (hnone : r.ingests act = []) : r'.runtime.out.tokenUsage = r.runtime.out.tokenUsage := by
  cases h with
  | op op ops hcan hst hop =>
      cases op with
      | usage u =>
          obtain ⟨stage, cancelled⟩ := c
          cases hst
          cases hcan
          simp only [Run.ingests, hc] at hnone
          cases hnone
      | upstreamError e => rfl
      | progress | terminalSignal | asked | resolved | part =>
          exact (op_perform_records r.config r.runtime (fun _ hcon => by cases hcon)
            (fun _ hcon => by cases hcon)).tokenUsage
  | act a | enqueue a => exact (act_perform_records r.config r.runtime.out a).tokenUsage
  | cancelled | streamOver | idle | deliver | signal | signalAgain | put | tracked => rfl

/-- The consumer reports no completion. -/
theorem Consumes.reports (h : r.Consumes c act r') (hc : r.consumer = some c) (hf : FlightOpen r)
    {metadata : OutputMetadata} (hreports : r'.Reports metadata) : r.Reports metadata := by
  rcases hreports with hmem | ⟨x, xs, hx, hmem⟩
  · rcases h.queue with hq | ⟨e, -, he, hq⟩
    · exact .inl (hq ▸ hmem)
    · rw [hq] at hmem
      rcases List.mem_append.mp hmem with hmem | hmem
      · exact .inl hmem
      · cases List.mem_singleton.mp hmem
        have hopen := hf c _ hc he
        cases hopen
  · exact .inr ⟨x, xs, h.same.stage ▸ hx, hmem⟩

end Run

/-! ## §3  The invariant -/

/-- The run after the usage events `us`. -/
structure Metered (us : List Mapping) (r : Run) : Prop where
  sound : Sound r
  flight : FlightOpen r
  stocked : Stocked r
  total : r.runtime.out.tokenUsage = totalUsage us
  unanswered : r.stage.unanswered = true → r.handled = none
  awaiting : ∀ response, r.stage = .awaitingSignal response → r.handled ≠ none
  usage : ∀ response, r.handled = some response → r.usage = r.resolvedTokenUsage response
  reported : ∀ metadata, r.Reports metadata →
    r.handled ≠ none ∧
      metadata.usage = if r.prepared.emitStreamingMetadata then r.usage else none

variable {us : List Mapping}

theorem Run.SameAnswer.resolved (h : r.SameAnswer r') (response : OpencodeMessage) :
    r'.resolvedTokenUsage response = r.resolvedTokenUsage response := by
  unfold Run.resolvedTokenUsage
  rw [h.prepared, h.tokenUsage]

/-- A move that neither handles the response nor ingests usage. -/
theorem Metered.same (h : Metered us r) (hsame : r.SameAnswer r') (hsound : Sound r')
    (hflight : FlightOpen r') (hstocked : Stocked r')
    (hunanswered : r'.stage.unanswered = true → r.stage.unanswered = true)
    (hawaiting : ∀ response, r'.stage = .awaitingSignal response → r'.handled ≠ none)
    (hreported : ∀ metadata, r'.Reports metadata → r.Reports metadata ∨
      (∃ response, r.stage = .awaitingSignal response) ∧
        metadata.usage = if r.prepared.emitStreamingMetadata then r.usage else none) :
    Metered us r' := by
  refine ⟨hsound, hflight, hstocked, hsame.tokenUsage.trans h.total, ?_, hawaiting, ?_, ?_⟩
  · rw [hsame.handled]
    exact fun hu => h.unanswered (hunanswered hu)
  · rw [hsame.handled, hsame.usage]
    intro response hhandled
    rw [hsame.resolved]
    exact h.usage response hhandled
  · rw [hsame.handled, hsame.usage, hsame.prepared]
    intro metadata hreports
    rcases hreported metadata hreports with hreports | ⟨⟨response, hs⟩, husage⟩
    · exact h.reported metadata hreports
    · exact ⟨h.awaiting response hs, husage⟩

theorem Metered.resumes (h : Metered us r) {stage : Stage} (hs : r.stage = stage)
    (hr : r.Resumes stage r') : Metered us r' := by
  have hkeeps := hr.keeps
  have hsound := hkeeps.sound h.sound
  have hflight := hkeeps.flightOpen h.flight
  have hparts := hr.parts
  have hstocked := h.stocked.keeps hkeeps hparts.1 hparts.2.1
    fun hsignal => hr.runtime (.inl hsignal)
  rcases hr.answer with hsame | ⟨response, rfl, hhandled, husage, hprepared, hruntime,
      hanswered⟩
  · refine h.same hsame hsound hflight hstocked ?_ (fun _ => hr.awaiting) ?_
    · rw [hs]
      exact hr.unanswered
    · intro metadata hreports
      have hcases := hr.reports hs h.sound hreports
      rwa [← hs] at hcases
  · have hnone : r.handled = none := h.unanswered (by rw [hs]; rfl)
    refine ⟨hsound, hflight, hstocked, by rw [hruntime]; exact h.total, ?_, fun _ => hr.awaiting,
      ?_, ?_⟩
    · intro hunanswered
      rw [hanswered] at hunanswered
      cases hunanswered
    · intro response' hresponse'
      rw [hhandled] at hresponse'
      cases hresponse'
      rw [husage]
      unfold Run.resolvedTokenUsage
      rw [hprepared, hruntime]
    · intro metadata hreports
      rcases hr.reports hs h.sound hreports with hreports | ⟨⟨_, hcon⟩, -⟩
      · exact absurd hnone (h.reported metadata hreports).1
      · cases hcon

theorem Metered.thrown (h : Metered us r) : Metered us r.thrown := by
  have hkeeps := Run.keeps_thrown (r := r)
  have hsilent := Run.silent_thrown r
  have hemitting := Run.not_emitting_of_late (Run.late_thrown (r := r))
  refine h.same (Run.sameAnswer_thrown r) (hkeeps.sound h.sound) (hkeeps.flightOpen h.flight)
    (h.stocked.keeps hkeeps hsilent.partStates hsilent.textArtifactId
      fun _ => Run.runtime_thrown r) ?_ ?_ ?_
  · intro hunanswered
    have hlate := Run.late_thrown (r := r)
    unfold Run.late at hlate
    split at hlate <;> rename_i hs <;> first | (rw [hs] at hunanswered; cases hunanswered) |
      cases hlate
  · intro response hs
    have hlate := Run.late_thrown (r := r)
    unfold Run.late at hlate
    rw [hs] at hlate
    cases hlate
  · exact fun metadata hreports => .inl (hreports.of_queue hsilent.queue hemitting)

theorem Metered.consumes (h : Metered us r) (hstep : r.act act = some r')
    (hmove : r.Consumes c act r') (hc : r.consumer = some c) (htimely : Timely r act) :
    Metered (us ++ r.ingestsBeforeSignal act) r' := by
  have hsame := hmove.same
  have hsound := hmove.sound hc h.sound
  have hstocked := hmove.stocked hc h.stocked
  have hreported : ∀ metadata, r'.Reports metadata → r.Reports metadata :=
    fun metadata => hmove.reports hc h.flight
  rcases Run.ingests_cases hstep with hnone | ⟨u, ops, hcu, hu, htokens⟩
  · have hnote : r.ingestsBeforeSignal act = [] := by
      unfold Run.ingestsBeforeSignal
      rw [hnone, ite_self]
    rw [hnote, List.append_nil]
    refine h.same ⟨hsame.prepared, hsame.handled, hsame.usage, hmove.tokenUsage hc hnone⟩ hsound
      hmove.flightOpen hstocked ?_ ?_ fun metadata hreports => .inl (hreported metadata hreports)
    · rw [hsame.stage]
      exact id
    · rw [hsame.stage, hsame.handled]
      exact h.awaiting
  · have hsignal : r.signal = none :=
      h.stocked.signal_of_busy hcu (.inr (.inl (List.cons_ne_nil _ _)))
    have hnote : r.ingestsBeforeSignal act = [u] := by
      unfold Run.ingestsBeforeSignal
      rw [hu, hsignal]
      rfl
    have htimely := fun response hhandled =>
      htimely response hhandled u (by rw [hu]; exact List.mem_cons_self ..)
    rw [hnote]
    refine ⟨hsound, hmove.flightOpen, hstocked, ?_, ?_, ?_, ?_, ?_⟩
    · rw [totalUsage_concat, htokens, h.total]
    · rw [hsame.stage, hsame.handled]
      exact h.unanswered
    · rw [hsame.stage, hsame.handled]
      exact h.awaiting
    · rw [hsame.handled, hsame.usage]
      intro response hhandled
      rw [h.usage response hhandled, ← htimely response hhandled]
      unfold Run.resolvedTokenUsage
      rw [hsame.prepared, htokens]
    · rw [hsame.handled, hsame.usage, hsame.prepared]
      exact fun metadata hreports => h.reported metadata (hreported metadata hreports)

theorem Metered.spares (h : Metered us r) {stage : CancelStage} (hcancels : r.Cancels stage r') :
    Metered us r' := by
  have hs := hcancels.spares
  refine h.same (.of_eq hs.prepared hs.handled hs.usage hs.runtime) ⟨?_, ?_, ?_⟩ ?_
    (h.stocked.spares hs) ?_ ?_ ?_
  · rw [hs.signal]
    exact h.sound.signal
  · rw [hs.runtime]
    exact h.sound.upstream
  · rw [hs.consumer]
    exact h.sound.ops
  · unfold FlightOpen
    rw [hs.consumer]
    exact h.flight
  · rw [hs.stage]
    exact id
  · rw [hs.stage, hs.handled]
    exact h.awaiting
  · intro metadata hreports
    left
    rcases hreports with hmem | ⟨e, rest, hstage, hmem⟩
    · rcases hcancels.queue with hq | hq | ⟨message, hq⟩
      · exact .inl (hq ▸ hmem)
      · rw [hq] at hmem
        rcases List.mem_append.mp hmem with hmem | hmem
        · exact .inl hmem
        · cases List.mem_singleton.mp hmem
      · rw [hq] at hmem
        rcases List.mem_append.mp hmem with hmem | hmem
        · exact .inl hmem
        · cases List.mem_singleton.mp hmem
    · exact .inr ⟨e, rest, hs.stage ▸ hstage, hmem⟩

theorem metered_initial (prepared : PreparedExecution) : Metered [] (Run.initial prepared) := by
  refine ⟨⟨?_, ?_, ?_⟩, ?_, stocked_initial prepared, rfl, fun _ => rfl, ?_, ?_, ?_⟩
  · exact fun e he => by cases he
  · exact fun e he => by cases he
  · exact fun c hc => by cases hc
  · exact fun c e hc => by cases hc
  · exact fun response hs => by cases hs
  · exact fun response hs => by cases hs
  · rintro metadata (hmem | ⟨e, rest, hs, -⟩)
    · cases hmem
    · cases hs

theorem metered_step (h : Metered us r) (htimely : Timely r act) (hstep : r.act act = some r') :
    Metered (us ++ r.ingestsBeforeSignal act) r' := by
  have hother : r.ingests act = [] → Metered us r' →
      Metered (us ++ r.ingestsBeforeSignal act) r' := by
    intro hnone h'
    unfold Run.ingestsBeforeSignal
    rwa [hnone, ite_self, List.append_nil]
  rcases Run.act_cases hstep with ⟨a, rfl, ha⟩ | ⟨c, hc, hmove⟩ | ⟨rfl, -, rfl⟩ | ⟨a, rfl, ha⟩
  · refine hother rfl ?_
    rcases Run.step_cases ha with ⟨-, -, rfl⟩ | ⟨-, hr⟩
    · exact h.thrown
    · exact h.resumes rfl hr
  · exact h.consumes hstep hmove hc htimely
  · exact hother rfl ⟨⟨h.sound.signal, h.sound.upstream, h.sound.ops⟩, h.flight,
      stocked_step h.stocked hstep, h.total, h.unanswered, h.awaiting, h.usage, h.reported⟩
  · exact hother rfl (h.spares (Run.cancelStep_cases ha))

/-! ## §4  The final report -/

/-- The completed status of a run carries the usage of the response merged with that
of all events up to the terminal signal. -/
theorem final_usage {prepared : PreparedExecution} {acts : List RunAction} {r : Run}
    (h : Machine.Runs Run.act Timely (Run.initial prepared) acts r) {metadata : OutputMetadata}
    (hcompleted : (.run, .status .completed metadata) ∈ r.queue) :
    ∃ response, r.handled = some response ∧
      metadata.usage = if r.prepared.emitStreamingMetadata then
        mergeTokenUsage (r.prepared.numerics.extractTokenUsage response.raw)
          (totalUsage (ingestedUsage prepared acts))
      else none := by
  have hmetered : Metered (ingestedUsage prepared acts) r :=
    h.gather_invariant (fun _ _ _ _ hi hok hstep => metered_step hi hok hstep)
      (metered_initial prepared)
  obtain ⟨hhandled, husage⟩ := hmetered.reported metadata (.inl hcompleted)
  obtain ⟨response, hresponse⟩ := Option.ne_none_iff_exists'.mp hhandled
  refine ⟨response, hresponse, ?_⟩
  rw [husage, hmetered.usage response hresponse]
  unfold Run.resolvedTokenUsage
  rw [hmetered.total]

/-! The runs of the examples: one usage event, before or after the response. -/

def usageEvent : Mapping :=
  [("type".toList, .str "message.updated".toList),
    ("properties".toList, .obj
      [("info".toList, .obj
        [("sessionID".toList, .str "session-1".toList), ("tokens".toList, .obj
          [("input".toList, .int 3), ("output".toList, .int 4)])])])]

def exampleUsage : Mapping :=
  [("input_tokens".toList, .int 3), ("output_tokens".toList, .int 4), ("total_tokens".toList, .int 7)]

/-- The usage event, then the end of the session. -/
def usageThenIdle : List RunAction :=
  [.deliver usageEvent, .consume, .consume, .deliver idleEvent, .consume, .consume]

def promptUsageRun : List RunAction :=
  upToSend ++ usageThenIdle ++ [.step (.response exampleResponse), .step (.toolResults false),
    .step .ok, .step .ok, .step .ok] ++ throughCleanup

/-- The response arrives before the usage event. -/
def tardyUsageRun : List RunAction :=
  upToSend ++ [.step (.response exampleResponse), .step (.toolResults false)] ++ usageThenIdle ++
    [.step .ok, .step .ok, .step .ok] ++ throughCleanup

def afterPromptUsage : Run :=
  Machine.after Run.act (Run.initial examplePrepared) promptUsageRun (by rfl)

def afterTardyUsage : Run :=
  Machine.after Run.act (Run.initial examplePrepared) tardyUsageRun (by rfl)

/-- No usage event comes after the response. -/
def Run.promptUsage (r : Run) (act : RunAction) : Bool :=
  r.handled.isNone || (r.ingests act).isEmpty

theorem timely_of_promptUsage (h : r.promptUsage act = true) : Timely r act := by
  intro response hhandled u hu
  unfold Run.promptUsage at h
  rw [hhandled] at h
  have hnone : r.ingests act = [] := List.isEmpty_iff.mp h
  rw [hnone] at hu
  cases hu

theorem prompt_usage_reported :
    ∃ metadata, (.run, .status .completed metadata) ∈ afterPromptUsage.queue ∧
      metadata.usage = some exampleUsage := by
  have hruns : Machine.Runs Run.act Timely (Run.initial examplePrepared) promptUsageRun
      afterPromptUsage :=
    Machine.runs_of_restrict Run.promptUsage (fun _ _ => timely_of_promptUsage) (by rfl)
  have hcompleted : ∃ metadata, (.run, .status .completed metadata) ∈ afterPromptUsage.queue :=
    ⟨_, List.mem_of_getLast? rfl⟩
  obtain ⟨metadata, hmem⟩ := hcompleted
  obtain ⟨response, hresponse, husage⟩ := final_usage hruns hmem
  have hsame : exampleResponse = response := Option.some.inj hresponse
  subst hsame
  exact ⟨metadata, hmem, husage⟩

/-- The event is ingested before the signal, and missing in the report. -/
theorem tardy_usage_is_lost :
    Machine.Runs Run.act (fun _ _ => True) (Run.initial examplePrepared) tardyUsageRun
        afterTardyUsage ∧
      afterTardyUsage.handled = some exampleResponse ∧
      (∃ metadata, (.run, .status .completed metadata) ∈ afterTardyUsage.queue ∧
        metadata.usage = none) ∧
      mergeTokenUsage (examplePrepared.numerics.extractTokenUsage exampleResponse.raw)
        (totalUsage (ingestedUsage examplePrepared tardyUsageRun)) = some exampleUsage :=
  ⟨Machine.runs_iff_run.mpr (Machine.run_after (by rfl)), rfl,
    ⟨_, List.mem_of_getLast? rfl, rfl⟩, by rfl⟩

end OpencodeA2a.Execution
