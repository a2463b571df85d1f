import OpencodeA2a.Execution.FirstSignal
import OpencodeA2a.Execution.UsageReport
import OpencodeA2a.Stream.Normalisation

/-!
# The turns of a tool loop

The tool loop of a streaming run sends one message a turn, and the upstream ends each turn
with a signal of its own. But the run has one consumer and one signal, and the first ends
both: the chunks of later turns are not shown, and the run closes by the first signal and the
last response. It follows its turns where that makes no difference.
-/

namespace OpencodeA2a.Execution

open OpencodeA2a.Stream

variable {r r' : Run} {c : Consumer} {act : RunAction} {cfg : Config}

/-! ## §1  Turns -/

/-- One message of the tool loop: what the session's stream brings for it, and the response. -/
structure Turn where
  events : List Mapping
  /-- the event that ends the turn, with its signal -/
  last : Mapping
  signal : TerminalSignal
  response : OpencodeMessage

/-- The error that a signal reports, or else the first that its operations noted. -/
def signalError (signal : TerminalSignal) (noted : Option UpstreamError) : Option UpstreamError :=
  match signal with
  | .error e => some e
  | .completed => noted

namespace Turn

variable (cfg : Config) (t : Turn)

def stream : List Mapping := t.events ++ [t.last]

/-- The turn ends with its signal, and not before. -/
structure Ends : Prop where
  last : .terminalSignal t.signal ∈ eventOps cfg t.last
  events : Unsignalled (opsOf cfg t.events)

/-- The error that the turn's stream ends with. -/
def outcome : Option UpstreamError := signalError t.signal (firstError (opsOf cfg t.stream))

/-- The error of the turn: that of its response, or that of its stream. -/
def verdict : Option UpstreamError :=
  (extractUpstreamErrorFromResponse t.response.raw).orElse fun _ => t.outcome cfg

end Turn

/-! ## §2  Closing events -/

/-- A state, and the error in the metadata: its type and status. -/
abbrev ClosingStatus := TaskState × Option (Text × Option ℤ)

/-- The status that a streaming run closes with, by the error it has. -/
def closesWith : Option UpstreamError → ClosingStatus
  | none => (.completed, none)
  | some e => (e.state, (Run.errorMetadata (.ofUpstream e)).error)

/-- What a closing event says. -/
def closes? : Event → Option ClosingStatus
  | .task s _ _ m | .status s m => if closingState s then some (s, m.error) else none
  | .artifact _ => none

theorem closes?_status (s : TaskState) (m : OutputMetadata) :
    closes? (.status s m) = if closingState s then some (s, m.error) else none := rfl

theorem closes?_eq_none {e : Event} (h : closing e = false) : closes? e = none := by
  cases e with
  | artifact u => rfl
  | task s | status s =>
      unfold closes?
      exact if_neg (by rw [show closingState s = false from h]; decide)

/-- The events in the queue or on their way there from the coordinator. -/
def Run.events (r : Run) : List Event := r.queue.map Prod.snd ++ r.emits

theorem Unclosed.closes? (h : Unclosed r) {e : Event} (he : e ∈ r.queue.map Prod.snd) :
    closes? e = none := by
  obtain ⟨x, hx, rfl⟩ := List.mem_map.mp he
  exact closes?_eq_none (h x hx)

/-- The error that the run closes by: that of the response, or else that of the stream. -/
def Run.verdict (r : Run) (response : OpencodeMessage) : Option (Option UpstreamError) :=
  match extractUpstreamErrorFromResponse response.raw with
  | some e => some (some e)
  | none => r.signal.map fun signal => signalError signal r.runtime.out.upstreamError

theorem Run.verdict_congr (hsignal : r'.signal = r.signal)
    (hupstream : r'.runtime.out.upstreamError = r.runtime.out.upstreamError)
    (response : OpencodeMessage) : r'.verdict response = r.verdict response := by
  unfold Run.verdict
  rw [hsignal, hupstream]

/-! ## §3  How a run closes -/

/-- The run closes as its response and its signal say. -/
structure Told (r : Run) : Prop where
  unanswered : r.stage.unanswered = true → r.handled = none
  awaiting : ∀ response, r.stage = .awaitingSignal response →
    r.handled = some response ∧ extractUpstreamErrorFromResponse response.raw = none
  closes : ∀ response, r.handled = some response → ∀ e ∈ r.events, ∀ k, closes? e = some k →
    (r.verdict response).map closesWith = some k

/-- A move after which what is to be closed by, and what closes, is as before. -/
theorem Told.still (h : Told r) (hk : r.Keeps r') (hhandled : r'.handled = r.handled)
    (hunanswered : r'.stage.unanswered = true → r.stage.unanswered = true)
    (hawaiting : ∀ response, r'.stage ≠ .awaitingSignal response)
    (hevents : ∀ e ∈ r'.events, e ∈ r.events ∨ closes? e = none) : Told r' := by
  refine ⟨?_, ?_, ?_⟩
  · rw [hhandled]
    exact fun hu => h.unanswered (hunanswered hu)
  · intro response hs
    exact absurd hs (hawaiting response)
  · intro response hresponse e he k hclose
    rw [Run.verdict_congr hk.signal hk.upstreamError]
    rcases hevents e he with hmem | hopen
    · exact h.closes response (hhandled ▸ hresponse) e hmem k hclose
    · rw [hopen] at hclose
      cases hclose

/-- An error closes the run as it says. -/
theorem closes_emitError {e : UpstreamError} (hq : ∀ x ∈ r.queue.map Prod.snd, closes? x = none)
    {x : Event} (hx : x ∈ (r.emitError true (.ofUpstream e)).events) {k : ClosingStatus}
    (hclose : closes? x = some k) : closesWith (some e) = k := by
  rcases List.mem_append.mp hx with hx | hx
  · rw [hq x hx] at hclose
    cases hclose
  · change x ∈ [_, _] at hx
    simp only [List.mem_cons, List.not_mem_nil, or_false] at hx
    rcases hx with rfl | rfl
    · cases hclose
    · rw [closes?_status] at hclose
      split at hclose
      · exact Option.some.inj hclose
      · cases hclose

theorem closes_complete {response : OpencodeMessage}
    (hq : ∀ x ∈ r.queue.map Prod.snd, closes? x = none) {x : Event}
    (hx : x ∈ (r.complete response).events) {k : ClosingStatus} (hclose : closes? x = some k) :
    closesWith none = k := by
  unfold Run.events at hx
  rw [(Run.silent_complete r response).queue] at hx
  rcases List.mem_append.mp hx with hx | hx
  · rw [hq x hx] at hclose
    cases hclose
  · unfold Run.complete at hx
    simp only at hx
    split at hx
    · obtain rfl := List.mem_singleton.mp hx
      exact Option.some.inj hclose
    · change x ∈ [_, _] at hx
      simp only [List.mem_cons, List.not_mem_nil, or_false] at hx
      rcases hx with rfl | rfl
      · cases hclose
      · exact Option.some.inj hclose

theorem Told.signal (h : Told r) {response : OpencodeMessage} (hu : Unclosed r)
    (hs : r.stage = .awaitingSignal response) {signal : TerminalSignal}
    (hsignal : r.signal = some signal) : Told (r.handleSignal response signal) := by
  obtain ⟨hhandled, hnoError⟩ := h.awaiting response hs
  have hk := Run.keeps_handleSignal (r := r) response signal
  have hq : ∀ x ∈ r.queue.map Prod.snd, closes? x = none := fun _ => hu.closes?
  have hanswer := (Run.Resumes.signal response signal hsignal).answer.resolve_right
    (by rintro ⟨_, hcon, -⟩; cases hcon)
  obtain ⟨e, rest, hemits⟩ := Run.emitting_handleSignal r response signal
  refine ⟨?_, ?_, ?_⟩
  · rw [hemits]
    exact fun hcon => by cases hcon
  · rw [hemits]
    exact fun _ hcon => by cases hcon
  · intro response' hresponse' x hx k hclose
    obtain rfl : response = response' :=
      Option.some.inj (hhandled.symm.trans (hanswer.handled.symm.trans hresponse'))
    rw [Run.verdict_congr hk.signal hk.upstreamError]
    unfold Run.verdict
    rw [hnoError, hsignal]
    refine congrArg some ?_
    cases signal with
    | error e => exact closes_emitError hq hx hclose
    | completed =>
        simp only [Run.handleSignal] at hx
        unfold signalError
        split at hx
        · rename_i e he
          rw [he]
          exact closes_emitError hq hx hclose
        · rename_i hnone
          rw [hnone]
          exact closes_complete hq hx hclose

theorem Told.handle (hu : Unclosed r) (hstream : r.prepared.streamingRequest = true)
    (response : OpencodeMessage) : Told (r.handleResponse response) := by
  have hq : ∀ x ∈ r.queue.map Prod.snd, closes? x = none := fun _ => hu.closes?
  unfold Run.handleResponse
  simp only
  split
  · rename_i e he
    rw [hstream]
    refine ⟨(fun hcon => by cases hcon), (fun _ hcon => by cases hcon), ?_⟩
    intro response' hresponse' x hx k hclose
    obtain rfl : response = response' := Option.some.inj hresponse'
    unfold Run.verdict
    rw [he]
    exact congrArg some (closes_emitError hq hx hclose)
  · rename_i hnoError
    rw [if_pos hstream]
    refine ⟨(fun hcon => by cases hcon), ?_, ?_⟩
    · intro response' hs
      cases hs
      exact ⟨rfl, hnoError⟩
    · intro response' _ x hx k hclose
      rcases List.mem_append.mp hx with hx | hx
      · rw [hq x hx] at hclose
        cases hclose
      · cases hx

/-- Without a signal, the consumer of a run that is still in its body is not done. -/
theorem Following.consumerDone {start : Runtime} {taken : List Mapping}
    (h : Following start taken r) (hsignal : r.signal = none) (hlate : r.late = false) :
    r.consumerDone = false := by
  unfold Run.consumerDone
  cases h with
  | unstarted hconsumer => rw [hconsumer]
  | reading c h =>
      rw [h.consumer]
      split
      · rename_i heq
        exact absurd (congrArg Consumer.stage (Option.some.inj heq)) h.ended
      · rfl
  | signalled s h =>
      rw [h.signal] at hsignal
      cases hsignal
  | cut hcut => exact absurd (hcut.symm.trans hlate) (by decide)

theorem Told.resumes (h : Told r) {stage : Stage} (hs : r.stage = stage)
    (hr : r.Resumes stage r') (hunderway : Underway r)
    (hdone : r.signal = none → r.late = false → r.consumerDone = false) : Told r' := by
  have hk := hr.keeps
  have hphase := hunderway.phase
  unfold Phase at hphase
  rw [hs] at hphase
  -- where nothing is put and nothing is to be put
  have hidle : r'.queue = r.queue → r'.emits = [] →
      ∀ e ∈ r'.events, e ∈ r.events ∨ closes? e = none := by
    intro hq hemits e he
    unfold Run.events at he
    rw [hq, hemits, List.append_nil] at he
    exact .inl (List.mem_append_left _ he)
  have hnot : r'.late = true → ∀ response, r'.stage ≠ .awaitingSignal response := by
    intro hlate response hcon
    unfold Run.late at hlate
    rw [hcon] at hlate
    cases hlate
  have hunanswered : r'.stage.unanswered = true → r.stage.unanswered = true := by
    rw [hs]
    exact hr.unanswered
  cases hr with
  | register | bind | lock | acquireAtOnce | wait | acquire | finalize | turn | stop | check
  | unregister =>
      exact h.still hk rfl hunanswered (fun _ hcon => by cases hcon) (hidle rfl rfl)
  | respond response =>
      refine h.still hk rfl hunanswered ?_ (hidle rfl ?_)
      · intro response' hcon
        cases hp : r.pending <;> simp only [hp] at hcon <;> cases hcon
      · unfold Run.emits
        cases r.pending <;> rfl
  | record =>
      refine h.still hk ?_ hunanswered ?_ (hidle ?_ ?_)
      all_goals
        unfold Run.afterRecording
        split <;> split <;> first | rfl | exact fun _ hcon => by cases hcon
  | snapshot =>
      refine h.still hk rfl hunanswered (fun _ hcon => by cases hcon) ?_
      intro e he
      change e ∈ (r.queue ++ [_]).map Prod.snd ++ [] at he
      rw [List.append_nil, List.map_append] at he
      rcases List.mem_append.mp he with he | he
      · exact .inl (List.mem_append_left _ he)
      · obtain rfl := List.mem_singleton.mp he
        exact .inr rfl
  | handle response => exact Told.handle hphase hunderway.streaming response
  | signal response signal hsignal => exact h.signal hphase hs hsignal
  | noSignal response e hsignal hended =>
      -- the consumer does not end before the signal
      have hlate : r.late = false := by
        unfold Run.late
        rw [hs]
      exact absurd (hended.symm.trans (hdone hsignal hlate)) (by decide)
  | fail stage e hwhere =>
      -- an exception of the body comes before any response is handled
      have hhandled : r.handled = none := by
        refine h.unanswered ?_
        rw [hs]
        rcases hwhere with rfl | rfl | rfl | ⟨response, rfl⟩ | ⟨response, rfl⟩ <;> rfl
      have hsame : (r.except e).handled = none :=
        (Run.sameAnswer_emitError r _ _).handled.trans hhandled
      refine ⟨fun _ => hsame, ?_, ?_⟩
      · intro response hcon
        unfold Run.except Run.emitError at hcon
        simp only at hcon
        split at hcon <;> cases hcon
      · intro response hresponse
        rw [hsame] at hresponse
        cases hresponse
  | emit e e' rest =>
      refine h.still hk rfl hunanswered (fun _ hcon => by cases hcon) ?_
      intro x hx
      left
      change x ∈ (r.queue ++ [(Author.run, e)]).map Prod.snd ++ e' :: rest at hx
      unfold Run.events Run.emits
      rw [hs]
      rw [List.map_append, List.append_assoc] at hx
      exact hx
  | emitLast e =>
      have hlate := Run.late_cleanup (r.put .run e)
      refine h.still hk (handled_cleanup (r.put .run e)) hunanswered (hnot hlate) ?_
      intro x hx
      left
      unfold Run.events at hx
      rw [Run.emits_of_late hlate, List.append_nil, (Run.silent_cleanup (r.put .run e)).queue] at hx
      unfold Run.events Run.emits
      rw [hs]
      change x ∈ (r.queue ++ [(Author.run, e)]).map Prod.snd at hx
      rw [List.map_append] at hx
      exact hx
  | release =>
      have hlate := Run.late_stopConsumer r
      exact h.still hk (Run.sameAnswer_stopConsumer r).handled hunanswered (hnot hlate)
        (hidle (Run.silent_stopConsumer r).queue (Run.emits_of_late hlate))

theorem Told.consumes (h : Told r) (hc : r.consumer = some c) (hmove : r.Consumes c act r')
    (hstocked : Stocked r) (hflight : FlightOpen r) : Told r' := by
  have hsame := hmove.same
  have hclosing : ∀ e ∈ r'.events, ∀ k, closes? e = some k → e ∈ r.events := by
    intro e he k hclose
    have hemits : r'.emits = r.emits := by
      unfold Run.emits
      rw [hsame.stage]
    unfold Run.events at he ⊢
    rw [hemits] at he
    rcases List.mem_append.mp he with he | he
    · rcases hmove.queue with hq | ⟨x, -, hx, hq⟩
      · rw [hq] at he
        exact List.mem_append_left _ he
      · rw [hq, List.map_append] at he
        rcases List.mem_append.mp he with he | he
        · exact List.mem_append_left _ he
        · obtain rfl := List.mem_singleton.mp he
          rw [closes?_eq_none (hflight c _ hc hx)] at hclose
          cases hclose
    · exact List.mem_append_right _ he
  refine ⟨?_, ?_, ?_⟩
  · rw [hsame.stage, hsame.handled]
    exact h.unanswered
  · rw [hsame.stage, hsame.handled]
    exact h.awaiting
  · intro response hresponse e he k hclose
    have hold := h.closes response (hsame.handled ▸ hresponse) e (hclosing e he k hclose) k hclose
    by_cases hne : r.signal = none
    · -- without a signal only an error of the response closes the run
      unfold Run.verdict at hold ⊢
      split at hold
      · exact hold
      · rw [hne] at hold
        cases hold
    · obtain ⟨hruntime, hsignal⟩ := hmove.runtime hc hstocked hne
      rw [Run.verdict_congr hsignal (by rw [hruntime])]
      exact hold

/-! ## §4  The responses -/

def RunAction.response? : RunAction → Option OpencodeMessage
  | .step (.response response) => some response
  | _ => none

/-- The responses that the run has got. -/
def responsesOf (acts : List RunAction) : List OpencodeMessage :=
  acts.filterMap RunAction.response?

/-- The response in hand, and the one that is handled, is the last. -/
structure Replied (acts : List RunAction) (r : Run) : Prop where
  inHand : ∀ response, r.stage = .finalizing response ∨ r.stage = .tools response →
    (responsesOf acts).getLast? = some response
  handled : ∀ response, r.handled = some response → (responsesOf acts).getLast? = some response

theorem stage_of_response {response : OpencodeMessage} (h : r.resume (.response response) = some r') :
    r.stage = .sending := by
  unfold Run.resume at h
  cases hs : r.stage with
  | sending => rfl
  | emitting e rest => cases rest <;> rw [hs] at h <;> cases h
  | registering | binding | locking | entering | waiting | recording | snapshot | finalizing | tools
  | awaitingSignal | releasing | stopping | checking | unregistering | ended =>
      rw [hs] at h
      cases h

/-- `send_message` returns, or raises. -/
theorem resume_of_sending {a : Answer} (hs : r.stage = .sending) (h : r.resume a = some r') :
    (∃ response, a = .response response ∧
      r' = { r with stage := if r.pending then .finalizing response else .tools response }) ∨
    ∃ e, a = .failed e ∧ r' = r.except e := by
  unfold Run.resume at h
  rw [hs] at h
  cases a with
  | response response => exact .inl ⟨response, rfl, (Option.some.inj h).symm⟩
  | failed e => exact .inr ⟨e, rfl, (Option.some.inj h).symm⟩
  | ok | bound | acquired | toolResults => cases h

theorem responsesOf_concat (acts : List RunAction) (act : RunAction) :
    responsesOf (acts ++ [act]) = responsesOf acts ++ act.response?.toList := by
  unfold responsesOf
  rw [List.filterMap_append]
  cases h : act.response? <;> simp [h]

/-- A step that brings no response. -/
theorem Replied.quiet {acts : List RunAction} (h : Replied acts r) (hact : act.response? = none)
    (hinHand : ∀ response, r'.stage = .finalizing response ∨ r'.stage = .tools response →
      r.stage = .finalizing response ∨ r.stage = .tools response)
    (hhandled : ∀ response, r'.handled = some response →
      r.handled = some response ∨ r.stage = .tools response) : Replied (acts ++ [act]) r' := by
  have hsame : responsesOf (acts ++ [act]) = responsesOf acts := by
    rw [responsesOf_concat, hact]
    exact List.append_nil _
  constructor
  · intro response hs
    rw [hsame]
    exact h.inHand response (hinHand response hs)
  · intro response hr
    rw [hsame]
    rcases hhandled response hr with hr | hr
    · exact h.handled response hr
    · exact h.inHand response (.inr hr)

theorem Run.Resumes.inHand {stage : Stage} (h : r.Resumes stage r') (hs : stage ≠ .sending)
    {response : OpencodeMessage} (hr : r'.stage = .finalizing response ∨ r'.stage = .tools response) :
    stage = .finalizing response := by
  have hunanswered : r'.stage.unanswered = true := by
    rcases hr with hr | hr <;> rw [hr] <;> rfl
  have hstage := h.unanswered hunanswered
  have herror : ∀ (r : Run) (b : Bool) (e : ErrorReport),
      (r.emitError b e).stage ≠ .finalizing response ∧ (r.emitError b e).stage ≠ .tools response := by
    intro r b e
    cases b <;> exact ⟨(fun hcon => by cases hcon), fun hcon => by cases hcon⟩
  cases h with
  | respond => exact absurd rfl hs
  | finalize response' =>
      rcases hr with hr | hr <;> cases hr
      rfl
  | handle response' =>
      unfold Run.handleResponse at hr
      simp only at hr
      split at hr
      · exact absurd hr (not_or.mpr (herror _ _ _))
      · split at hr <;> rcases hr with hr | hr <;> cases hr
  | fail stage e => exact absurd hr (not_or.mpr (herror _ _ _))
  | record =>
      unfold Run.afterRecording at hr
      split at hr <;> split at hr <;> rcases hr with hr | hr <;> cases hr
  | register | bind | lock | acquireAtOnce | wait | acquire | snapshot | turn =>
      rcases hr with hr | hr <;> cases hr
  | signal | noSignal | emit | emitLast | release | stop | check | unregister => cases hstage

theorem Replied.resumes {acts : List RunAction} (h : Replied acts r) (htold : Told r) {a : Answer}
    (hstep : r.resume a = some r') : Replied (acts ++ [.step a]) r' := by
  have hr := Run.resume_cases hstep
  have hhandled : ∀ response, r'.handled = some response →
      r.handled = some response ∨ r.stage = .tools response := by
    intro response hresponse
    rcases hr.answer with hsame | ⟨response', hs, hnew, -⟩
    · exact .inl (hsame.handled ▸ hresponse)
    · rw [hresponse] at hnew
      cases hnew
      exact .inr hs
  by_cases hs : r.stage = .sending
  · have hnone : r.handled = none := htold.unanswered (by rw [hs]; rfl)
    rcases resume_of_sending hs hstep with ⟨response, rfl, rfl⟩ | ⟨e, rfl, rfl⟩
    · have hlast : (responsesOf (acts ++ [.step (.response response)])).getLast? =
          some response := by
        rw [responsesOf_concat]
        exact List.getLast?_concat ..
      constructor
      · intro response' hin
        rw [hlast]
        cases hp : r.pending <;> simp only [hp] at hin <;> rcases hin with hin | hin <;> cases hin <;>
          rfl
      · intro response' hcon
        exact absurd (hnone.symm.trans hcon) (by simp)
    · refine h.quiet rfl ?_ hhandled
      intro response hin
      unfold Run.except Run.emitError at hin
      simp only at hin
      split at hin <;> rcases hin with hin | hin <;> cases hin
  · refine h.quiet ?_ (fun response hin => .inl (hr.inHand hs hin)) hhandled
    cases a with
    | response response => exact absurd (stage_of_response hstep) hs
    | ok | bound | acquired | toolResults | failed => rfl

theorem Replied.consumes {acts : List RunAction} (h : Replied acts r) (hmove : r.Consumes c act r')
    (hact : act.response? = none) : Replied (acts ++ [act]) r' := by
  refine h.quiet hact ?_ ?_
  · rw [hmove.same.stage]
    exact fun _ => id
  · rw [hmove.same.handled]
    exact fun _ => .inl

/-- A run, with what it knows of its stream, how it closes and what it was answered. -/
structure Accounted (start : Runtime) (acts : List RunAction) (r : Run) : Prop where
  traced : ∃ taken, Traced start taken r
  told : Told r
  replied : Replied acts r

theorem accounted_initial {prepared : PreparedExecution} (h : prepared.streamingRequest = true) :
    Accounted (Run.initial prepared).runtime [] (Run.initial prepared) := by
  refine ⟨⟨[], traced_initial h⟩, ⟨fun _ => rfl, ?_, ?_⟩, ⟨?_, ?_⟩⟩
  · exact fun _ hcon => by cases hcon
  · exact fun _ hcon => by cases hcon
  · rintro response (hcon | hcon) <;> cases hcon
  · exact fun _ hcon => by cases hcon

theorem accounted_step {start : Runtime} {acts : List RunAction} (h : Accounted start acts r)
    (hattended : Attended r act) (hstep : r.act act = some r') :
    Accounted start (acts ++ [act]) r' := by
  obtain ⟨taken, htraced⟩ := h.traced
  have hnext := traced_step htraced hattended hstep
  have hmoves : act.response? = none → (∃ c, r.consumer = some c ∧ r.Consumes c act r') →
      Accounted start (acts ++ [act]) r' := by
    rintro hact ⟨c, hc, hmove⟩
    exact ⟨⟨_, hnext⟩, h.told.consumes hc hmove htraced.stocked htraced.underway.flight,
      h.replied.consumes hmove hact⟩
  cases act with
  | step a =>
      have hresume : r.resume a = some r' := by
        have hgo : ¬ ((r.cancelRequested && r.awaits) = true) := by
          rw [htraced.underway.uncancelled, Bool.false_and]
          decide
        unfold Run.act Run.step at hstep
        simp only at hstep
        rw [if_neg hgo] at hstep
        exact hstep
      exact ⟨⟨_, hnext⟩, h.told.resumes rfl (Run.resume_cases hresume) htraced.underway
        htraced.following.consumerDone, h.replied.resumes h.told hresume⟩
  | consume => exact hmoves rfl (Run.consume_cases hstep)
  | deliver event => exact hmoves rfl (Run.deliver_cases hstep)
  | close => exact hmoves rfl (Run.close_cases hstep)
  | streamFails => exact hmoves rfl (Run.streamFails_cases hstep)
  | cancel => exact absurd rfl hattended.1.1
  | cancelStep a => exact absurd rfl (hattended.1.2 a)

theorem accounted_run {prepared : PreparedExecution} (hstream : prepared.streamingRequest = true)
    {acts : List RunAction} {r : Run}
    (h : Machine.Runs Run.act Attended (Run.initial prepared) acts r) :
    Accounted (Run.initial prepared).runtime acts r :=
  h.actions_invariant (fun _ _ _ _ hi hok hstep => accounted_step hi hok hstep)
    (accounted_initial hstream)

/-! ## §5  Following the turns -/

/-- The run takes the events of its turns in order, and has the response of each when it
handles the last. -/
structure Loop (prepared : PreparedExecution) (acts : List RunAction) (r : Run)
    (turns : List Turn) : Prop where
  taken : takenEvents prepared acts <+: turns.flatMap Turn.stream
  ends : ∀ t ∈ turns, t.Ends r.config
  responses : r.handled ≠ none → responsesOf acts = turns.map Turn.response

/-- Once the run has its signal the text chunks of all turns are in the queue, and it closes as
the last turn says. -/
structure Run.Follows (r : Run) (start : Runtime) (turns : List Turn) : Prop where
  shown : r.signal ≠ none → (laneOf r.config.textLane
    (updatesOf (Stream.consume r.config start (turns.flatMap Turn.stream)).2)).Sublist
      (laneOf r.config.textLane r.sent)
  closed : r.handled ≠ none → ∀ e ∈ r.queue.map Prod.snd, ∀ k, closes? e = some k →
    ∃ last, turns.getLast? = some last ∧ k = closesWith (last.verdict r.config)

/-- The turns after the first add no text to what it brings, and the last ends as the first,
unless its response has an error of its own. -/
structure FirstDecides (cfg : Config) (start : Runtime) (first : Turn) (later : List Turn) :
    Prop where
  silent : laneOf cfg.textLane (updatesOf (consume cfg (consume cfg start first.stream).1
    (later.flatMap Turn.stream)).2) = []
  outcome : ∀ last, (first :: later).getLast? = some last →
    extractUpstreamErrorFromResponse last.response.raw = none →
      last.outcome cfg = first.outcome cfg

theorem updatesOf_consume_append (rt : Runtime) (a b : List Mapping) :
    updatesOf (consume cfg rt (a ++ b)).2 =
      updatesOf (consume cfg rt a).2 ++ updatesOf (consume cfg (consume cfg rt a).1 b).2 := by
  rw [consume_eq_handleOps, consume_eq_handleOps, consume_eq_handleOps, opsOf_append,
    handleOps_append, updatesOf_append]

/-- Events up to a first signal are those of the first turn, and the signal is its. -/
theorem first_signal {first : Turn} {later : List Turn} {taken : List Mapping}
    (hends : first.Ends cfg) (htaken : taken <+: (first :: later).flatMap Turn.stream)
    {done : List Op} (hdone : Unsignalled done) {s : TerminalSignal}
    (hops : opsOf cfg taken = done ++ [.terminalSignal s]) :
    opsOf cfg taken = opsOf cfg first.stream ∧ s = first.signal := by
  have hlong : first.stream.length ≤ taken.length := by
    by_contra hshort
    have hlength : first.stream.length = first.events.length + 1 := by
      unfold Turn.stream
      exact List.length_append
    have hwhole : first.events <+: (first :: later).flatMap Turn.stream := by
      rw [List.flatMap_cons]
      unfold Turn.stream
      rw [List.append_assoc]
      exact List.prefix_append _ _
    obtain ⟨more, hmore⟩ := List.prefix_of_prefix_length_le htaken hwhole (by omega)
    refine hends.events s ?_
    rw [← hmore, opsOf_append, hops]
    simp
  have hwhole : first.stream <+: (first :: later).flatMap Turn.stream := by
    rw [List.flatMap_cons]
    exact List.prefix_append _ _
  obtain ⟨more, rfl⟩ := List.prefix_of_prefix_length_le hwhole htaken hlong
  obtain ⟨a, b, hlast⟩ := List.append_of_mem hends.last
  have hstream : opsOf cfg first.stream = opsOf cfg first.events ++ eventOps cfg first.last := by
    unfold Turn.stream
    rw [opsOf_append]
    exact congrArg _ (List.append_nil _)
  have hall : done ++ [.terminalSignal s] =
      (opsOf cfg first.events ++ a) ++ .terminalSignal first.signal :: (b ++ opsOf cfg more) := by
    rw [← hops, opsOf_append, hstream, hlast]
    simp only [List.append_assoc, List.cons_append]
  have hnil := signalLast_concat hdone _ _ _ _ hall
  rw [hnil] at hall
  have hsignal := List.append_inj_right' hall rfl
  refine ⟨?_, ?_⟩
  · rw [opsOf_append, (List.append_eq_nil_iff.mp hnil).2, List.append_nil]
  · cases hsignal
    rfl

/-- What a run with a signal knows: the first turn's. -/
theorem Traced.first_turn {start : Runtime} {taken : List Mapping} (h : Traced start taken r)
    (hstart : start.out.upstreamError = none) {first : Turn} {later : List Turn}
    (hends : first.Ends r.config) (htaken : taken <+: (first :: later).flatMap Turn.stream)
    (hsignal : r.signal ≠ none) :
    (r.signal.map fun s => signalError s r.runtime.out.upstreamError) =
        some (first.outcome r.config) ∧
      (updatesOf (consume r.config start first.stream).2).Sublist r.sent := by
  cases h.following with
  | unstarted _ hnone => exact absurd hnone hsignal
  | reading c h => exact absurd h.signal hsignal
  | cut _ hnone => exact absurd hnone hsignal
  | signalled s h =>
      obtain ⟨done, hops, hdone⟩ := h.ops
      obtain ⟨hall, rfl⟩ := first_signal hends htaken hdone hops
      have hupstream := h.upstreamError
      have hsent := h.sent
      rw [hall] at hupstream hsent
      rw [upstreamError_handleOps, hstart] at hupstream
      constructor
      · rw [h.signal, hupstream]
        rfl
      · rw [consume_eq_handleOps]
        exact hsent

/-- A run follows its turns where the first decides. -/
theorem first_signal_follows {prepared : PreparedExecution}
    (hstream : prepared.streamingRequest = true) {acts : List RunAction} {r : Run}
    (h : Machine.Runs Run.act Attended (Run.initial prepared) acts r) {first : Turn}
    {later : List Turn} (hloop : Loop prepared acts r (first :: later))
    (hdecides : FirstDecides r.config (Run.initial prepared).runtime first later) :
    r.Follows (Run.initial prepared).runtime (first :: later) := by
  have htraced := traced_run hstream h
  have haccounted := accounted_run hstream h
  have hends := hloop.ends first List.mem_cons_self
  constructor
  case shown =>
    intro hsignal
    obtain ⟨-, hsent⟩ := htraced.first_turn rfl hends hloop.taken hsignal
    rw [List.flatMap_cons, updatesOf_consume_append, laneOf_append, hdecides.silent,
      List.append_nil]
    exact hsent.filter _
  case closed =>
    intro hhandled e he k hclose
    obtain ⟨response, hresponse⟩ := Option.ne_none_iff_exists'.mp hhandled
    have hanswer := haccounted.replied.handled response hresponse
    rw [hloop.responses hhandled, List.getLast?_map] at hanswer
    obtain ⟨last, hlast, rfl⟩ := Option.map_eq_some_iff.mp hanswer
    refine ⟨last, hlast, ?_⟩
    have hverdict := haccounted.told.closes last.response hresponse e
      (List.mem_append_left _ he) k hclose
    unfold Run.verdict at hverdict
    unfold Turn.verdict
    cases herror : extractUpstreamErrorFromResponse last.response.raw with
    | some error =>
        rw [herror] at hverdict
        exact (Option.some.inj hverdict).symm
    | none =>
        rw [herror] at hverdict
        simp only at hverdict
        have hsignal : r.signal ≠ none := by
          intro hnone
          rw [hnone] at hverdict
          cases hverdict
        obtain ⟨houtcome, -⟩ := htraced.first_turn rfl hends hloop.taken hsignal
        rw [houtcome] at hverdict
        change k = closesWith (last.outcome r.config)
        rw [hdecides.outcome last hlast herror]
        exact (Option.some.inj hverdict).symm

/-! The runs of the examples: two turns. -/

/-- A turn without parts. -/
def idleTurn : Turn :=
  { events := [], last := idleEvent, signal := .completed, response := exampleResponse }

/-- A turn with the text chunk "ab". -/
def shownTurn : Turn := { idleTurn with events := [snapshotEvent "ab"] }

/-- A turn that brings text, too, and fails. -/
def failingTurn : Turn :=
  { events := [snapshotEvent "ab"]
    last := [("type".toList, .str "session.error".toList),
      ("properties".toList, .obj [("sessionID".toList, .str "session-1".toList),
        ("error".toList, .obj [("name".toList, .str "ProviderError".toList)])])]
    signal := .error (formatInbandUpstreamError "session.error".toList none none
      (some "ProviderError".toList))
    response := exampleResponse }

/-- No operation is a signal. -/
def unsignalled (ops : List Op) : Bool :=
  ops.all fun
    | .terminalSignal _ => false
    | _ => true

theorem unsignalled_of_check {ops : List Op} (h : unsignalled ops = true) : Unsignalled ops := by
  intro s hmem
  cases List.all_eq_true.mp h _ hmem

def attendedAct : RunAction → Bool
  | .step _ | .consume | .deliver _ => true
  | .close | .streamFails | .cancel | .cancelStep _ => false

theorem runs_of_attended {acts : List RunAction} {r : Run} (hacts : acts.all attendedAct = true)
    (h : Machine.run Run.act (Run.initial examplePrepared) acts = some r) :
    Machine.Runs Run.act Attended (Run.initial examplePrepared) acts r := by
  refine Machine.runs_of_run ?_ h
  intro act hact _
  have hcheck := List.all_eq_true.mp hacts act hact
  refine ⟨⟨?_, ?_⟩, ?_, ?_⟩
  · rintro rfl
    cases hcheck
  · rintro a rfl
    cases hcheck
  · rintro rfl
    cases hcheck
  · rintro rfl
    cases hcheck

/-- The first turn shows its chunk; the tools have results once. -/
def twoTurnsRun : List RunAction :=
  upToSend ++ [.deliver (snapshotEvent "ab"), .consume, .consume, .consume, .consume,
    .deliver idleEvent, .consume, .consume, .step (.response exampleResponse),
    .step (.toolResults true), .step (.response exampleResponse), .step (.toolResults false),
    .step .ok, .step .ok, .step .ok] ++ throughCleanup

def afterTwoTurns : Run :=
  Machine.after Run.act (Run.initial examplePrepared) twoTurnsRun (by rfl)

theorem two_turns_followed :
    afterTwoTurns.Follows (Run.initial examplePrepared).runtime [shownTurn, idleTurn] := by
  have hruns : Machine.Runs Run.act Attended (Run.initial examplePrepared) twoTurnsRun
      afterTwoTurns := runs_of_attended (by rfl) (Machine.run_after (by rfl))
  have hidle : eventOps afterTwoTurns.config idleEvent = [.terminalSignal .completed] := by rfl
  have hloop : Loop examplePrepared twoTurnsRun afterTwoTurns [shownTurn, idleTurn] := by
    refine ⟨⟨[idleEvent], by rfl⟩, ?_, fun _ => by rfl⟩
    rw [List.forall_mem_cons, List.forall_mem_singleton]
    constructor
    · constructor
      · exact hidle ▸ List.mem_singleton_self _
      · exact unsignalled_of_check (by rfl)
    · constructor
      · exact hidle ▸ List.mem_singleton_self _
      · exact unsignalled_of_check (by rfl)
  refine first_signal_follows (by rfl) hruns hloop ⟨?_, ?_⟩
  · change laneOf _ (updatesOf (consume afterTwoTurns.config _ [idleEvent]).2) = []
    rw [consume_eq_handleOps, show opsOf afterTwoTurns.config [idleEvent] =
      [.terminalSignal .completed] from hidle]
    rfl
  · intro last hlast _
    cases hlast
    rfl

/-- The same, but the second turn brings a chunk and fails. The chunk is not taken. -/
def brokenTurnsRun : List RunAction :=
  upToSend ++ [.deliver idleEvent, .consume, .consume, .step (.response exampleResponse),
    .step (.toolResults true), .deliver (snapshotEvent "ab"), .step (.response exampleResponse),
    .step (.toolResults false), .step .ok, .step .ok, .step .ok, .step .ok, .step .ok, .step .ok]

def afterBrokenTurns : Run :=
  Machine.after Run.act (Run.initial examplePrepared) brokenTurnsRun (by rfl)

/-- The run completes, without the chunk. -/
theorem failing_turn_completes :
    Machine.Runs Run.act Attended (Run.initial examplePrepared) brokenTurnsRun afterBrokenTurns ∧
      Loop examplePrepared brokenTurnsRun afterBrokenTurns [idleTurn, failingTurn] ∧
      (∃ metadata, (.run, .status .completed metadata) ∈ afterBrokenTurns.queue) ∧
      (failingTurn.verdict afterBrokenTurns.config).map UpstreamError.state = some .failed ∧
      afterBrokenTurns.sent.map (fun u => u.part.textD) = ["hello".toList] ∧
      ¬ afterBrokenTurns.Follows (Run.initial examplePrepared).runtime [idleTurn, failingTurn] := by
  have hruns : Machine.Runs Run.act Attended (Run.initial examplePrepared) brokenTurnsRun
      afterBrokenTurns := runs_of_attended (by rfl) (Machine.run_after (by rfl))
  have hidle : eventOps afterBrokenTurns.config idleEvent = [.terminalSignal .completed] := by rfl
  have hloop : Loop examplePrepared brokenTurnsRun afterBrokenTurns [idleTurn, failingTurn] := by
    refine ⟨⟨failingTurn.stream, by rfl⟩, ?_, fun _ => by rfl⟩
    rw [List.forall_mem_cons, List.forall_mem_singleton]
    constructor
    · constructor
      · exact hidle ▸ List.mem_singleton_self _
      · exact unsignalled_of_check (by rfl)
    · constructor
      · exact List.mem_of_getLast? (by rfl)
      · exact unsignalled_of_check (by rfl)
  have hstatus : ∃ metadata, (.run, .status .completed metadata) ∈ afterBrokenTurns.queue :=
    ⟨_, List.mem_of_getLast? (by rfl)⟩
  refine ⟨hruns, hloop, hstatus, by rfl, by rfl, ?_⟩
  intro hfollows
  obtain ⟨metadata, hmem⟩ := hstatus
  have hhandled : afterBrokenTurns.handled ≠ none := by
    rw [show afterBrokenTurns.handled = some exampleResponse from by rfl]
    exact Option.some_ne_none _
  obtain ⟨last, hlast, hclose⟩ := hfollows.closed hhandled _
    (List.mem_map_of_mem hmem) _ rfl
  cases hlast
  have hstate : TaskState.completed = .failed := congrArg Prod.fst hclose
  cases hstate

end OpencodeA2a.Execution
