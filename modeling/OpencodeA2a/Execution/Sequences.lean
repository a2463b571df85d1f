import OpencodeA2a.Execution.Reconstruction
import OpencodeA2a.Stream.Normalisation
import OpencodeA2a.Stream.Numbering

/-!
# The queue has every number once, in order

Both the consumer and the coordinator draw sequence numbers. The consumer has nothing left when
the coordinator draws one, and an enqueue that is cancelled with its number is the last of its
run, so that the numbers in the queue count up from one without a gap.
-/

namespace OpencodeA2a.Execution

open OpencodeA2a.Stream

variable {r r' : Run} {c : Consumer} {act : RunAction}

/-! ## §1  The numbers of a run -/

/-- The numbers in the queue. -/
def Run.numbers (r : Run) : List (ℕ × Text) := numbersOf (r.queue.map Prod.snd)

theorem numbers_put {author : Author} {e : Event} (h : r'.queue = r.queue ++ [(author, e)]) :
    r'.numbers = r.numbers ++ numbersOf [e] := by
  unfold Run.numbers
  rw [h, List.map_append, numbersOf_append]
  rfl

theorem numbers_congr (h : r'.queue = r.queue) : r'.numbers = r.numbers := by
  unfold Run.numbers
  rw [h]

/-- What the consumer is enqueuing. -/
def Run.held (r : Run) : List Event := (r.consumer.bind fun c => c.stage.inFlight).toList

theorem held_congr (h : r'.consumer.map Consumer.stage = r.consumer.map Consumer.stage) :
    r'.held = r.held := by
  unfold Run.held
  rw [bind_inFlight, bind_inFlight, h]

theorem held_of_consumer (hc : r.consumer = some c) : r.held = c.stage.inFlight.toList := by
  unfold Run.held
  rw [hc]
  rfl

/-- The run draws no number any more. -/
def Run.Spent (r : Run) : Prop :=
  r.late = true ∧ ∀ c, r.consumer = some c → c.cancelled = true ∨ r.signal ≠ none

/-- What has been drawn is in the queue or on its way there, unless a cancelled enqueue took a
number with it. -/
inductive Numbered (r : Run) : Prop
  | whole (h : issued r.runtime.out r.runtime.out.sequence =
      r.numbers ++ numbersOf r.held ++ numbersOf r.emits)
  | broken (n : ℕ) (h : r.numbers = issued r.runtime.out n) (hspent : r.Spent)

theorem Numbered.numbers (h : Numbered r) : ∃ n, r.numbers = issued r.runtime.out n := by
  cases h with
  | whole h =>
      rw [List.append_assoc] at h
      exact eq_issued_of_append h.symm
  | broken n h => exact ⟨n, h⟩

/-- A run with the hints, and how it draws its numbers. -/
structure Counted (r : Run) : Prop where
  hints : r.prepared.emitStreamingMetadata = true
  stocked : Stocked r
  early : r.early = true → r.consumer = none
  cancelled : ∀ c, r.consumer = some c → c.cancelled = true → r.late = true
  /-- the coordinator draws its number when it has the signal -/
  emits : r.signal = none → numbersOf r.emits = []
  numbered : Numbered r

theorem Counted.held_nil (h : Counted r) (hsignal : r.signal ≠ none) : r.held = [] := by
  unfold Run.held
  rw [h.stocked.bind_inFlight hsignal]
  rfl

/-! ## §2  The consumer -/

theorem Run.Consumes.signal_none (h : r.Consumes c act r') (hsignal : r'.signal = none) :
    r.signal = none := by
  cases h with
  | signal => cases hsignal
  | cancelled | streamOver | idle | deliver | signalAgain | op | act | enqueue | put | tracked =>
      exact hsignal

theorem Run.Consumes.eventIdNamespace (h : r.Consumes c act r')
    (hhints : r.config.emitStreamingMetadata = true) :
    r'.runtime.out.eventIdNamespace = r.runtime.out.eventIdNamespace := by
  cases h with
  | op op => exact (op_perform_numbers r.config r.runtime op).eventIdNamespace
  | act a acts ops stage hcn hs hstage hput =>
      show (a.perform r.config r.runtime.out).1.eventIdNamespace = _
      rw [act_perform_silent hput]
  | enqueue a acts ops e hcn hs hput => exact (draws_act_perform hhints hput).eventIdNamespace
  | cancelled | streamOver | idle | deliver | signal | signalAgain | put | tracked => rfl

/-- The consumer of a run that draws no number any more puts nothing. -/
theorem Run.Consumes.spent (h : r.Consumes c act r') (hc : r.consumer = some c)
    (hs : Stocked r) (hspent : r.Spent) : r'.queue = r.queue ∧ r'.Spent := by
  have hcase := hspent.2 c hc
  refine ⟨?_, ?_, ?_⟩
  · rcases h.queue with hq | ⟨e, hnot, hflight, -⟩
    · exact hq
    · rcases hcase with hcan | hsignal
      · exact absurd (hcan.symm.trans hnot) (by decide)
      · obtain ⟨-, -, hnone⟩ := (hs.quiet hsignal).2 c hc
        rw [hnone] at hflight
        cases hflight
  · unfold Run.late
    rw [h.same.stage]
    exact hspent.1
  · intro c' hc'
    obtain ⟨stage, hr'⟩ := h.consumer
    rw [hr'] at hc'
    cases hc'
    exact hcase.imp_right fun hsignal hnone => hsignal (h.signal_none hnone)

theorem Numbered.consumes (hn : Numbered r) (h : Counted r) (hc : r.consumer = some c)
    (hmove : r.Consumes c act r') : Numbered r' := by
  have hemits : r'.emits = r.emits := by
    unfold Run.emits
    rw [hmove.same.stage]
  cases hn with
  | broken n hnumbers hspent =>
      obtain ⟨hq, hspent'⟩ := hmove.spent hc h.stocked hspent
      refine .broken n ?_ hspent'
      rw [numbers_congr hq, hnumbers, StreamOutputState.issued_congr (hmove.eventIdNamespace h.hints)]
  | whole hall =>
      -- where the consumer has put nothing and is not about to
      have hidle : ∀ stage : ConsumerStage, stage.inFlight = none → c.stage.inFlight = none →
          r'.consumer = some { c with stage := stage } → r'.queue = r.queue →
          r.runtime.out.SameNumbers r'.runtime.out → Numbered r' := by
        intro stage hnone hbefore hr' hq hsame
        refine .whole ?_
        rw [held_of_consumer hc, hbefore] at hall
        rw [StreamOutputState.issued_congr hsame.eventIdNamespace, hsame.sequence, hall,
          numbers_congr hq, held_of_consumer hr', hemits]
        simp only [hnone]
      have hnotPutting : (∀ e acts ops, c.stage ≠ .putting e acts ops) →
          c.stage.inFlight = none := by
        intro hput
        cases hs : c.stage with
        | putting e acts ops => exact absurd hs (hput e acts ops)
        | waiting | busy | tracking | ended => rfl
      cases hmove with
      | cancelled hcan =>
          -- what was in flight is lost
          obtain ⟨n, hn⟩ := Numbered.numbers (.whole hall)
          refine .broken n hn ⟨h.cancelled c hc hcan, ?_⟩
          intro c' hc'
          cases hc'
          exact .inl hcan
      | streamOver _ _ hput => exact hidle _ rfl (hnotPutting hput) rfl rfl (.refl _)
      | idle _ _ hput => exact hidle _ rfl (hnotPutting hput) rfl rfl (.refl _)
      | deliver event _ hs | signal _ _ _ hs | signalAgain _ _ _ hs | tracked _ _ _ hs =>
          exact hidle _ rfl (by rw [hs]; rfl) rfl rfl (.refl _)
      | op op ops _ hs =>
          exact hidle _ rfl (by rw [hs]; rfl) rfl rfl (op_perform_numbers r.config r.runtime op)
      | act a acts ops stage _ hs hstage hput =>
          refine hidle stage ?_ (by rw [hs]; rfl) rfl rfl ?_
          · rcases hstage with rfl | rfl <;> rfl
          · show r.runtime.out.SameNumbers (a.perform r.config r.runtime.out).1
            rw [act_perform_silent hput]
            exact .refl _
      | enqueue a acts ops e _ hs hput =>
          have hsignal : r.signal = none :=
            h.stocked.signal_of_busy hc (.inl (by rw [hs]; exact List.cons_ne_nil _ _))
          refine .whole ((draws_act_perform h.hints hput).issued.trans ?_)
          rw [hall, held_of_consumer hc, hs, hemits, h.emits hsignal, List.append_nil,
            List.append_nil]
          exact congrArg (· ++ _) (List.append_nil _)
      | put e acts ops _ hs =>
          refine .whole ?_
          rw [held_of_consumer hc, hs] at hall
          rw [numbers_put rfl, hemits]
          refine hall.trans (congrArg (· ++ _) ?_)
          exact (List.append_nil _).symm

theorem Counted.consumes (h : Counted r) (hc : r.consumer = some c)
    (hmove : r.Consumes c act r') : Counted r' := by
  have hsame := hmove.same
  refine ⟨hsame.prepared ▸ h.hints, hmove.stocked hc h.stocked, ?_, ?_, ?_,
    h.numbered.consumes h hc hmove⟩
  · intro hearly
    unfold Run.early at hearly
    rw [hsame.stage] at hearly
    rw [h.early hearly] at hc
    cases hc
  · intro c' hc' hcan
    obtain ⟨stage, hr'⟩ := hmove.consumer
    rw [hr'] at hc'
    cases hc'
    unfold Run.late
    rw [hsame.stage]
    exact h.cancelled c hc hcan
  · intro hsignal
    unfold Run.emits
    rw [hsame.stage]
    exact h.emits (hmove.signal_none hsignal)

/-! ## §3  The coordinator -/

theorem emits_nil (h : ∀ e rest, r.stage ≠ .emitting e rest) : r.emits = [] := by
  unfold Run.emits
  split
  · rename_i e rest hs
    exact absurd hs (h e rest)
  · rfl

theorem numbersOf_emitError (r : Run) (b : Bool) (e : ErrorReport) :
    numbersOf (r.emitError b e).emits = [] := by
  cases b <;> rfl

theorem numbersOf_handleResponse (r : Run) (response : OpencodeMessage) :
    numbersOf (r.handleResponse response).emits = [] := by
  unfold Run.handleResponse
  simp only
  split
  · exact numbersOf_emitError _ _ _
  · split
    · rfl
    · refine List.filterMap_cons_none ?_
      unfold Event.number? buildOutputMetadata
      simp only [ite_self, Option.bind_none]

/-- The closing status has an event id, but no number. -/
theorem number?_completed (cfg : Config) (session messageId eventId : Text)
    (usage : Option Mapping) : Event.number? (.status .completed (buildOutputMetadata cfg
      (some session) usage (some ⟨messageId, eventId, none⟩) none none)) = none := by
  unfold Event.number? buildOutputMetadata
  simp only
  split <;> rfl

/-- The events of a completed run, without a number or with the one that is drawn. -/
theorem complete_draws (hhints : r.config.emitStreamingMetadata = true)
    (response : OpencodeMessage) :
    (r.runtime.out.SameNumbers (r.complete response).runtime.out ∧
        numbersOf (r.complete response).emits = []) ∨
      issued (r.complete response).runtime.out (r.complete response).runtime.out.sequence =
        issued r.runtime.out r.runtime.out.sequence ++
          numbersOf (r.complete response).emits := by
  unfold Run.complete
  simp only
  split
  · exact .inl ⟨.refl _, List.filterMap_cons_none (number?_completed ..)⟩
  · rename_i out hout
    right
    let snapshot : ArtifactUpdate :=
      ⟨r.runtime.out.resolveTextArtifactId r.streamTextArtifactId, .text response.text, false, true,
        buildStreamArtifactMetadata r.config .text
          (r.runtime.out.resolveMessageId response.messageId) out.nextSequence⟩
    have hdraws : Draws r.runtime.out out.nextSequence (.artifact snapshot) :=
      draws_artifact hhints (StreamOutputState.shouldEmitFinalSnapshot_numbers hout) rfl
    refine hdraws.issued.trans (congrArg _ ?_)
    show numbersOf [.artifact snapshot] = numbersOf ([.artifact snapshot] ++ [_])
    rw [numbersOf_append]
    have hnone := List.filterMap_cons_none (l := []) (number?_completed r.config r.session
      (r.runtime.out.resolveMessageId response.messageId)
      (r.runtime.out.eventIdNamespace ++ ":status".toList) r.usage)
    exact ((congrArg _ hnone).trans (List.append_nil _)).symm

/-- Where the coordinator puts no number and is not about to. -/
theorem Numbered.still (hn : Numbered r) (hnumbers : r'.numbers = r.numbers)
    (hsame : r.runtime.out.SameNumbers r'.runtime.out) (hheld : r'.held = r.held)
    (hemits : numbersOf r'.emits = numbersOf r.emits) (hspent : r.Spent → r'.Spent) :
    Numbered r' := by
  have hissued := StreamOutputState.issued_congr hsame.eventIdNamespace
  cases hn with
  | whole h =>
      refine .whole ?_
      rw [hissued, hsame.sequence, h, hnumbers, hheld, hemits]
  | broken n h hs => exact .broken n (by rw [hnumbers, h, hissued]) (hspent hs)

/-- The coordinator puts the first of its events. -/
theorem Counted.putNext (h : Counted r) {e : Event} (hemits : r.emits = e :: r'.emits)
    (hq : r'.queue = r.queue ++ [(.run, e)]) (hruntime : r'.runtime = r.runtime)
    (hheld : r'.held = r.held) : Numbered r' := by
  cases h.numbered with
  | broken n hn hspent =>
      rw [Run.emits_of_late hspent.1] at hemits
      cases hemits
  | whole hall =>
      refine .whole ?_
      have hsplit : numbersOf r.emits = numbersOf [e] ++ numbersOf r'.emits := by
        rw [hemits, ← numbersOf_append]
        rfl
      rw [hruntime, hall, numbers_put hq, hheld, hsplit]
      -- one of the two has no number at hand
      by_cases hsignal : r.signal = none
      · have hnil := h.emits hsignal
        rw [hsplit] at hnil
        rw [(List.append_eq_nil_iff.mp hnil).1]
        simp only [List.append_nil, List.nil_append]
      · rw [h.held_nil hsignal]
        simp only [numbersOf, List.filterMap_nil, List.append_nil, List.append_assoc]

theorem Run.Resumes.spent {stage : Stage} (hr : r.Resumes stage r') (hs : r.stage = stage)
    (hspent : r.Spent) : r'.Spent := by
  obtain ⟨hlate, hall⟩ := hspent
  refine ⟨(hr.late hs hlate).1, ?_⟩
  intro c hc
  have hrecording : stage ≠ .recording := by
    rintro rfl
    unfold Run.late at hlate
    rw [hs] at hlate
    cases hlate
  rcases hr.tends hrecording with ⟨hsame, -⟩ | ⟨-, hcancelled⟩
  · rw [hr.keeps.signal]
    exact hall c (hsame ▸ hc)
  · exact .inl (hcancelled c hc)

/-- The number of the final snapshot is the next. -/
theorem Counted.complete (h : Counted r) (hemits : r.emits = []) (hlate : r.late = false)
    (response : OpencodeMessage) : Numbered (r.complete response) := by
  have hsilent := Run.silent_complete r response
  have hnumbers := numbers_congr hsilent.queue
  have hheld := held_congr hsilent.stages
  cases h.numbered with
  | broken n hn hspent => exact absurd (hspent.1.symm.trans hlate) (by decide)
  | whole hall =>
      refine .whole ?_
      rw [hnumbers, hheld]
      rw [hemits, show numbersOf [] = [] from rfl, List.append_nil] at hall
      rcases complete_draws h.hints response with ⟨hsame, hnil⟩ | hdraws
      · rw [hnil, List.append_nil, StreamOutputState.issued_congr hsame.eventIdNamespace,
          hsame.sequence, hall]
      · rw [hdraws, hall]

theorem Counted.numbered_resumes (h : Counted r) {stage : Stage} (hs : r.stage = stage)
    (hr : r.Resumes stage r') : Numbered r' ∧ (r.signal = none → numbersOf r'.emits = []) := by
  obtain ⟨-, -, hstages⟩ := hr.parts
  have hspent := hr.spent hs
  have hnil : (∀ e rest, stage ≠ .emitting e rest) → r.emits = [] :=
    fun hne => emits_nil (hs ▸ hne)
  -- where no number is drawn and none comes into the queue
  have hstay : r'.runtime = r.runtime → r'.held = r.held →
      (∀ e rest, stage ≠ .emitting e rest) → r'.numbers = r.numbers →
      numbersOf r'.emits = [] → Numbered r' ∧ (r.signal = none → numbersOf r'.emits = []) := by
    intro hruntime hheld hemitting hnumbers hemits
    refine ⟨h.numbered.still hnumbers ?_ hheld ?_ hspent, fun _ => hemits⟩
    · rw [hruntime]
      exact .refl _
    · rw [hemits, hnil hemitting]
      rfl
  have hstill : (∀ response, stage ≠ .awaitingSignal response) → stage ≠ .recording →
      (∀ e rest, stage ≠ .emitting e rest) → r'.numbers = r.numbers →
      numbersOf r'.emits = [] → Numbered r' ∧ (r.signal = none → numbersOf r'.emits = []) :=
    fun hawaiting hrecording =>
      hstay (hr.runtime (.inr hawaiting)) (held_congr (hstages hrecording))
  cases hr with
  | register | bind | lock | acquireAtOnce | wait | acquire | turn | finalize | stop | check
  | unregister =>
      exact hstill (fun _ hcon => by cases hcon) (fun hcon => by cases hcon)
        (fun _ _ hcon => by cases hcon) rfl rfl
  | respond response =>
      refine hstill (fun _ hcon => by cases hcon) (fun hcon => by cases hcon)
        (fun _ _ hcon => by cases hcon) rfl ?_
      unfold Run.emits
      cases r.pending <;> rfl
  | snapshot =>
      exact hstill (fun _ hcon => by cases hcon) (fun hcon => by cases hcon)
        (fun _ _ hcon => by cases hcon) ((numbers_put rfl).trans (List.append_nil _)) rfl
  | release =>
      refine hstill (fun _ hcon => by cases hcon) (fun hcon => by cases hcon)
        (fun _ _ hcon => by cases hcon) (numbers_congr (Run.silent_stopConsumer r).queue) ?_
      rw [Run.emits_of_late (Run.late_stopConsumer r)]
      rfl
  | fail stage e hwhere =>
      refine hstill ?_ ?_ ?_ (numbers_congr (Run.silent_emitError r _ _).queue)
        (numbersOf_emitError r _ _)
      all_goals rcases hwhere with rfl | rfl | rfl | ⟨response, rfl⟩ | ⟨response, rfl⟩
      all_goals intros; intro hcon; cases hcon
  | handle response =>
      exact hstill (fun _ hcon => by cases hcon) (fun hcon => by cases hcon)
        (fun _ _ hcon => by cases hcon) (numbers_congr (Run.silent_handleResponse r response).queue)
        (numbersOf_handleResponse r response)
  | record =>
      -- the consumer is started, and holds nothing yet
      have hnone := h.early (by unfold Run.early; rw [hs])
      have hheld : r.held = [] := by
        unfold Run.held
        rw [hnone]
        rfl
      refine hstay (Run.Resumes.record.runtime (.inr fun _ hcon => by cases hcon)) ?_
        (fun _ _ hcon => by cases hcon) ?_ ?_
      · rw [hheld]
        unfold Run.afterRecording
        split
        · split <;> rfl
        · split <;> exact hheld
      · unfold Run.afterRecording
        split <;> split <;> rfl
      · unfold Run.afterRecording
        split <;> split <;> rfl
  | noSignal response e hsignal hdone =>
      exact hstay ((Run.Resumes.noSignal response e hsignal hdone).runtime (.inl hsignal))
        (held_congr (hstages fun hcon => by cases hcon)) (fun _ _ hcon => by cases hcon)
        (numbers_congr (Run.silent_emitError r _ _).queue) (numbersOf_emitError r _ _)
  | signal response signal hsignal =>
      have herror : ∀ e, r.handleSignal response signal = r.emitError true e →
          Numbered (r.handleSignal response signal) := by
        intro e heq
        have hsilent := Run.silent_emitError r true e
        rw [heq] at hstay ⊢
        exact (hstay rfl (held_congr hsilent.stages) (fun _ _ hcon => by cases hcon)
          (numbers_congr hsilent.queue) (numbersOf_emitError r _ _)).1
      refine ⟨?_, fun hnone => absurd (hnone.symm.trans hsignal) (by simp)⟩
      cases signal with
      | error e => exact herror _ rfl
      | completed =>
          cases hup : r.runtime.out.upstreamError with
          | some e => exact herror (.ofUpstream e) (by simp only [Run.handleSignal, hup])
          | none =>
              -- the only case in which the coordinator draws numbers itself
              have heq : r.handleSignal response .completed = r.complete response := by
                simp only [Run.handleSignal, hup]
              rw [heq]
              exact h.complete (hnil fun _ _ hcon => by cases hcon)
                (by unfold Run.late; rw [hs]) response
  | emit e e' rest =>
      have hemits : r.emits = e :: e' :: rest := by
        unfold Run.emits
        rw [hs]
      refine ⟨h.putNext hemits rfl rfl rfl, ?_⟩
      intro hsignal
      have hall := h.emits hsignal
      rw [hemits, show e :: e' :: rest = [e] ++ (e' :: rest) from rfl, numbersOf_append] at hall
      exact (List.append_eq_nil_iff.mp hall).2
  | emitLast e =>
      have hsilent := Run.silent_cleanup (r.put .run e)
      have hafter := Run.emits_of_late (Run.late_cleanup (r.put .run e))
      refine ⟨h.putNext ?_ hsilent.queue ?_ (held_congr hsilent.stages), ?_⟩
      · rw [hafter]
        unfold Run.emits
        rw [hs]
      · exact (Run.Resumes.emitLast e).runtime (.inr fun _ hcon => by cases hcon)
      · rw [hafter]
        exact fun _ => rfl

theorem Counted.resumes (h : Counted r) {stage : Stage} (hs : r.stage = stage)
    (hr : r.Resumes stage r') : Counted r' := by
  have hk := hr.keeps
  obtain ⟨hparts, htext, -⟩ := hr.parts
  obtain ⟨hnumbered, hemits⟩ := h.numbered_resumes hs hr
  refine ⟨hk.prepared ▸ h.hints, h.stocked.keeps hk hparts htext fun hsignal =>
    hr.runtime (.inl hsignal), ?_, ?_, ?_, hnumbered⟩
  · intro hearly
    obtain ⟨hearly', hc⟩ := hr.early hs hearly
    rw [hc]
    exact h.early hearly'
  · intro c' hc' hcan
    by_cases hrecording : stage = .recording
    · subst hrecording
      have hnone := h.early (by unfold Run.early; rw [hs])
      cases hr with
      | fail _ e hwhere =>
          rcases hwhere with hcon | hcon | hcon | ⟨_, hcon⟩ | ⟨_, hcon⟩ <;> cases hcon
      | record =>
          unfold Run.afterRecording at hc'
          split at hc' <;> split at hc'
          all_goals first | (cases hc'; cases hcan) | exact absurd (hnone.symm.trans hc') (by simp)
    · rcases hr.tends hrecording with ⟨hsame, -⟩ | ⟨hlate, -⟩
      · exact (hr.late hs (h.cancelled c' (hsame ▸ hc') hcan)).1
      · exact hlate
  · rw [hk.signal]
    exact hemits

theorem tends_thrown (r : Run) : r.thrown.consumer = r.consumer ∨
    ∀ c, r.thrown.consumer = some c → c.cancelled = true := by
  unfold Run.thrown
  simp only
  split
  · exact .inl rfl
  · exact .inl rfl
  · exact .inl rfl
  · unfold Run.cleanup
    split
    · exact .inl rfl
    · unfold Run.stopConsumer
      split
      · refine .inr ?_
        intro c hc
        cases hc
        rfl
      · exact .inl rfl

/-- A cancelled run draws nothing more; a number that it was enqueuing is lost. -/
theorem Counted.thrown (h : Counted r) : Counted r.thrown := by
  have hk := Run.keeps_thrown (r := r)
  have hsilent := Run.silent_thrown r
  have hruntime := Run.runtime_thrown r
  have hlate := Run.late_thrown (r := r)
  have hafter := Run.emits_of_late hlate
  have hnumbers := numbers_congr hsilent.queue
  refine ⟨hk.prepared ▸ h.hints, h.stocked.keeps hk hsilent.partStates hsilent.textArtifactId
    fun _ => hruntime, ?_, fun _ _ _ => hlate, ?_, ?_⟩
  · rw [Run.early_thrown]
    exact fun hcon => by cases hcon
  · rw [hafter]
    exact fun _ => rfl
  · by_cases hsignal : r.signal = none
    · refine h.numbered.still hnumbers ?_ (held_congr hsilent.stages) ?_ ?_
      · rw [hruntime]
        exact .refl _
      · rw [hafter, h.emits hsignal]
        rfl
      · rintro ⟨-, hall⟩
        refine ⟨hlate, ?_⟩
        intro c hc
        rcases tends_thrown r with hsame | hcancelled
        · rw [hk.signal]
          exact hall c (hsame ▸ hc)
        · exact .inl (hcancelled c hc)
    · obtain ⟨n, hn⟩ := h.numbered.numbers
      refine .broken n ?_ ⟨hlate, fun _ _ => .inr ?_⟩
      · rw [hnumbers, hruntime, hn]
      · rw [hk.signal]
        exact hsignal

theorem Counted.spares (h : Counted r) {stage : CancelStage} (hcancels : r.Cancels stage r') :
    Counted r' := by
  have hs := hcancels.spares
  have hnumbers : r'.numbers = r.numbers := by
    rcases hcancels.queue with hq | hq | ⟨message, hq⟩
    · exact numbers_congr hq
    · exact (numbers_put hq).trans (List.append_nil _)
    · exact (numbers_put hq).trans (List.append_nil _)
  have hemits : r'.emits = r.emits := by
    unfold Run.emits
    rw [hs.stage]
  have hlate : r'.late = r.late := by
    unfold Run.late
    rw [hs.stage]
  refine ⟨hs.prepared ▸ h.hints, h.stocked.spares hs, ?_, ?_, ?_, ?_⟩
  · unfold Run.early
    rw [hs.stage, hs.consumer]
    exact h.early
  · rw [hs.consumer, hlate]
    exact h.cancelled
  · rw [hs.signal, hemits]
    exact h.emits
  · refine h.numbered.still hnumbers ?_ (held_congr (by rw [hs.consumer])) (by rw [hemits]) ?_
    · rw [hs.runtime]
      exact .refl _
    · unfold Run.Spent
      rw [hlate, hs.consumer, hs.signal]
      exact id

/-! ## §4  The whole run -/

theorem counted_initial {prepared : PreparedExecution}
    (hhints : prepared.emitStreamingMetadata = true) : Counted (Run.initial prepared) := by
  refine ⟨hhints, stocked_initial prepared, fun _ => rfl, ?_, fun _ => rfl, .whole rfl⟩
  exact fun _ hcon => by cases hcon

theorem counted_step (h : Counted r) (hstep : r.act act = some r') : Counted r' := by
  rcases Run.act_cases hstep with ⟨a, rfl, ha⟩ | ⟨c, hc, hmove⟩ | ⟨rfl, -, rfl⟩ | ⟨a, rfl, ha⟩
  · rcases Run.step_cases ha with ⟨-, -, rfl⟩ | ⟨-, hr⟩
    · exact h.thrown
    · exact h.resumes rfl hr
  · exact h.consumes hc hmove
  · exact ⟨h.hints, stocked_step h.stocked hstep, h.early, h.cancelled, h.emits,
      h.numbered.still rfl (.refl _) rfl rfl id⟩
  · exact h.spares (Run.cancelStep_cases ha)

/-- With the stream hints, the numbers in the queue are 1, 2, 3 and so on, in this order, and
no two event ids are the same. -/
theorem sequences_gapless {prepared : PreparedExecution}
    (hhints : prepared.emitStreamingMetadata = true) {acts : List RunAction} {r : Run}
    (h : Machine.run Run.act (Run.initial prepared) acts = some r) :
    (∃ n, r.numbers.map Prod.fst = List.range' 1 n) ∧ (r.numbers.map Prod.snd).Nodup := by
  have hreachable : Machine.Reachable Run.act (Run.initial prepared) r := ⟨acts, h⟩
  have hcounted : Counted r :=
    hreachable.invariant (fun _ _ _ hi hstep => counted_step hi hstep) (counted_initial hhints)
  obtain ⟨n, hn⟩ := hcounted.numbered.numbers
  rw [hn]
  exact ⟨⟨n, fst_issued _ n⟩, nodup_snd_issued _ n⟩

/-- A chunk, the same again, and the final snapshot: two numbers. -/
def numberedRun : List RunAction :=
  upToSend ++ [.deliver (snapshotEvent "ab"), .consume, .consume, .consume, .consume,
    .deliver (snapshotEvent "ab"), .consume, .consume, .deliver idleEvent, .consume, .consume,
    .step (.response exampleResponse), .step (.toolResults false), .step .ok, .step .ok,
    .step .ok] ++ throughCleanup

def afterNumbered : Run :=
  Machine.after Run.act (Run.initial examplePrepared) numberedRun (by rfl)

theorem final_snapshot_is_second :
    afterNumbered.numbers.map Prod.fst = [1, 2] ∧ (afterNumbered.numbers.map Prod.snd).Nodup := by
  have hrun : Machine.run Run.act (Run.initial examplePrepared) numberedRun = some afterNumbered :=
    Machine.run_after (by rfl)
  exact ⟨by rfl, (sequences_gapless (by rfl) hrun).2⟩

end OpencodeA2a.Execution
