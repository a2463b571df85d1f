import OpencodeA2a.Execution.Lock
import OpencodeA2a.Execution.Reconstruction

/-!
# The stream up to its signal

A run has one consumer and one terminal signal. The consumer takes the session's events in
order, puts what they come to and notes their errors; the first signal it takes up is kept,
and it stops. So with the signal the run knows, and has put, exactly what the events up to
that signal come to, whatever the stream brings after them.
-/

namespace OpencodeA2a.Execution

open OpencodeA2a.Stream

variable {r r' : Run} {c : Consumer} {act : RunAction} {cfg : Config}

/-! ## §1  Events and their operations -/

/-- The operations of a stretch of the stream. -/
def opsOf (cfg : Config) (events : List Mapping) : List Op := events.flatMap (eventOps cfg)

theorem opsOf_append (cfg : Config) (a b : List Mapping) :
    opsOf cfg (a ++ b) = opsOf cfg a ++ opsOf cfg b := List.flatMap_append

def updatesOf (events : List Event) : List ArtifactUpdate := events.filterMap Event.update?

theorem updatesOf_append (a b : List Event) : updatesOf (a ++ b) = updatesOf a ++ updatesOf b :=
  List.filterMap_append

theorem handleOps_append (rt : Runtime) (a b : List Op) :
    handleOps cfg rt (a ++ b) = ((handleOps cfg (handleOps cfg rt a).1 b).1,
      (handleOps cfg rt a).2 ++ (handleOps cfg (handleOps cfg rt a).1 b).2) := by
  induction a generalizing rt with
  | nil => rfl
  | cons op a ih =>
      simp only [List.cons_append, handleOps]
      rw [ih]
      simp only [List.append_assoc]

/-- A stretch of the stream is handled operation by operation. -/
theorem consume_eq_handleOps (rt : Runtime) (events : List Mapping) :
    consume cfg rt events = handleOps cfg rt (opsOf cfg events) := by
  induction events generalizing rt with
  | nil => rfl
  | cons e events ih =>
      change consume cfg rt (e :: events) = handleOps cfg rt (eventOps cfg e ++ opsOf cfg events)
      rw [handleOps_append, ← ih]
      rfl

/-- No signal is among the operations. -/
def Unsignalled (ops : List Op) : Prop := ∀ s, .terminalSignal s ∉ ops

theorem Unsignalled.append {a b : List Op} (ha : Unsignalled a) (hb : Unsignalled b) :
    Unsignalled (a ++ b) := by
  intro s hmem
  rcases List.mem_append.mp hmem with hmem | hmem
  · exact ha s hmem
  · exact hb s hmem

/-- The first error that operations note. -/
def firstError (ops : List Op) : Option UpstreamError :=
  ops.findSome? fun
    | .upstreamError e => some e
    | _ => none

theorem upstreamError_performActs (s : StreamOutputState) (acts : List Act) :
    (performActs cfg s acts).1.upstreamError = s.upstreamError := by
  induction acts generalizing s with
  | nil => rfl
  | cons a acts ih =>
      have hrecords := act_perform_records cfg s a
      have hrest := ih (a.perform cfg s).1
      simp only [performActs]
      split <;> exact hrest.trans hrecords.upstreamError

theorem upstreamError_perform (rt : Runtime) (op : Op) :
    (op.perform cfg rt).1.out.upstreamError =
      rt.out.upstreamError.orElse fun _ => firstError [op] := by
  cases op with
  | upstreamError e => rfl
  | usage u =>
      show rt.out.upstreamError = _
      cases rt.out.upstreamError <;> rfl
  | progress | terminalSignal | asked | resolved | part =>
      rw [(op_perform_records cfg rt (fun _ hcon => by cases hcon)
        (fun _ hcon => by cases hcon)).upstreamError]
      cases rt.out.upstreamError <;> rfl

/-- The error that is kept is the first. -/
theorem upstreamError_handleOps (rt : Runtime) (ops : List Op) :
    (handleOps cfg rt ops).1.out.upstreamError =
      rt.out.upstreamError.orElse fun _ => firstError ops := by
  induction ops generalizing rt with
  | nil => cases h : rt.out.upstreamError <;> simp [handleOps, h, firstError]
  | cons op ops ih =>
      simp only [handleOps]
      rw [ih]
      simp only
      rw [upstreamError_performActs, upstreamError_perform]
      cases rt.out.upstreamError with
      | some e => rfl
      | none => cases op <;> rfl

/-! ## §2  What the consumer has ahead -/

/-- What acts and operations come to that are still to be performed. -/
def aheadOf (cfg : Config) (rt : Runtime) (acts : List Act) (ops : List Op) :
    Runtime × List Event :=
  let (out, events) := performActs cfg rt.out acts
  let (rt', events') := handleOps cfg { rt with out := out } ops
  (rt', events ++ events')

/-- What is left of the current event, once it is handled. -/
def ConsumerStage.ahead (cfg : Config) (rt : Runtime) : ConsumerStage → Runtime × List Event
  | .waiting | .ended => (rt, [])
  | .busy acts ops | .tracking acts ops => aheadOf cfg rt acts ops
  | .putting e acts ops => ((aheadOf cfg rt acts ops).1, e :: (aheadOf cfg rt acts ops).2)

@[simp] theorem aheadOf_nil (rt : Runtime) (ops : List Op) :
    aheadOf cfg rt [] ops = handleOps cfg rt ops := rfl

theorem aheadOf_cons_of_put (rt : Runtime) {a : Act} {e : Event} (acts : List Act) (ops : List Op)
    (h : (a.perform cfg rt.out).2 = .put e) :
    aheadOf cfg rt (a :: acts) ops =
      ((aheadOf cfg { rt with out := (a.perform cfg rt.out).1 } acts ops).1,
        e :: (aheadOf cfg { rt with out := (a.perform cfg rt.out).1 } acts ops).2) := by
  simp only [aheadOf, performActs, h]
  rfl

theorem aheadOf_cons_of_not_put (rt : Runtime) {a : Act} (acts : List Act) (ops : List Op)
    (h : ∀ e, (a.perform cfg rt.out).2 ≠ .put e) :
    aheadOf cfg rt (a :: acts) ops =
      aheadOf cfg { rt with out := (a.perform cfg rt.out).1 } acts ops := by
  simp only [aheadOf, performActs]

/-! ## §3  The consumer's moves -/

/-- Nobody cancels the run, and up to its signal the stream is read event by event: it may be
opened again between two. -/
def Attended (r : Run) (act : RunAction) : Prop :=
  Uncancelled r act ∧ (act = .close → r.signal ≠ none) ∧
    (act = .streamFails → r.signal ≠ none ∨ r.consumer = some {})

/-- The event that the consumer takes from the stream in this step. -/
def Run.takes (r : Run) : RunAction → List Mapping
  | .deliver event => if r.stop then [] else [event]
  | _ => []

/-- The events that the run has taken from the stream. -/
def takenEvents (prepared : PreparedExecution) (acts : List RunAction) : List Mapping :=
  Machine.gather Run.act Run.takes (Run.initial prepared) acts

/-- A step of a consumer that is not cancelled, before the signal. -/
inductive Run.Reads (r : Run) (c : Consumer) : Run → Prop
  | idle (hs : c.stage = .busy [] []) : Reads r c (r.setConsumer c .waiting)
  | signal (s : TerminalSignal) (ops : List Op)
      (hs : c.stage = .busy [] (.terminalSignal s :: ops)) :
      Reads r c { r.setConsumer c (.busy [] ops) with signal := some s, stop := true }
  | op (op : Op) (ops : List Op) (hs : c.stage = .busy [] (op :: ops))
      (hop : ∀ s, op ≠ .terminalSignal s) :
      Reads r c { r.setConsumer c (.busy (op.perform r.config r.runtime).2 ops) with
        runtime := (op.perform r.config r.runtime).1 }
  | act (act : Act) (acts : List Act) (ops : List Op) (stage : ConsumerStage)
      (hs : c.stage = .busy (act :: acts) ops)
      (hstage : stage = .busy acts ops ∨ stage = .tracking acts ops)
      (hput : ∀ e, (act.perform r.config r.runtime.out).2 ≠ .put e) :
      Reads r c ({ r with runtime := { r.runtime with
        out := (act.perform r.config r.runtime.out).1 } }.setConsumer c stage)
  | enqueue (act : Act) (acts : List Act) (ops : List Op) (e : Event)
      (hs : c.stage = .busy (act :: acts) ops)
      (hput : (act.perform r.config r.runtime.out).2 = .put e) :
      Reads r c ({ r with runtime := { r.runtime with
        out := (act.perform r.config r.runtime.out).1 } }.setConsumer c (.putting e acts ops))
  | put (e : Event) (acts : List Act) (ops : List Op) (hs : c.stage = .putting e acts ops) :
      Reads r c ((r.put .run e).setConsumer c (.busy acts ops))
  | tracked (acts : List Act) (ops : List Op) (hs : c.stage = .tracking acts ops) :
      Reads r c (r.setConsumer c (.busy acts ops))

theorem Run.reads_of_consume (hc : r.consumer = some c) (hcan : c.cancelled = false)
    (hsignal : r.signal = none) (h : r.consume = some r') : r.Reads c r' := by
  unfold Run.consume at h
  simp only [hc, hcan, Bool.false_eq_true, if_false] at h
  split at h <;> rename_i hs <;> try cases h
  · exact .idle hs
  · rename_i s ops
    rw [hsignal] at h
    cases h
    exact .signal s ops hs
  · rename_i op ops hop
    exact .op op ops hs hop
  · rename_i act acts ops
    split at h <;> rename_i heff <;> cases h
    · refine .act act acts ops _ hs (Or.inl rfl) ?_
      intro e hput
      rw [heff] at hput
      cases hput
    · exact .enqueue act acts ops _ hs heff
    · refine .act act acts ops _ hs (Or.inr rfl) ?_
      intro e hput
      rw [heff] at hput
      cases hput
  · rename_i e acts ops
    exact .put e acts ops hs
  · rename_i acts ops
    exact .tracked acts ops hs

/-! ## §4  Following the stream -/

/-- The consumer reads: with what is ahead of it, it has come to what the events taken so far
come to, and has put all but what is ahead. -/
structure Reading (start : Runtime) (taken : List Mapping) (r : Run) (c : Consumer) : Prop where
  early : r.early = false
  consumer : r.consumer = some c
  cancelled : c.cancelled = false
  ended : c.stage ≠ .ended
  stop : r.stop = false
  signal : r.signal = none
  ops : ∃ done, opsOf r.config taken = done ++ c.stage.ops ∧ Unsignalled done
  runtime : (c.stage.ahead r.config r.runtime).1 =
    (handleOps r.config start (opsOf r.config taken)).1
  sent : ∃ before, before.Sublist r.sent ∧
    before ++ updatesOf (c.stage.ahead r.config r.runtime).2 =
      updatesOf (handleOps r.config start (opsOf r.config taken)).2

/-- The consumer has taken up a signal: all that was taken has been handled, and the signal was
its last operation. -/
structure Signalled (start : Runtime) (taken : List Mapping) (r : Run) (s : TerminalSignal) :
    Prop where
  early : r.early = false
  signal : r.signal = some s
  ops : ∃ done, opsOf r.config taken = done ++ [.terminalSignal s] ∧ Unsignalled done
  upstreamError : r.runtime.out.upstreamError =
    (handleOps r.config start (opsOf r.config taken)).1.out.upstreamError
  sent : (updatesOf (handleOps r.config start (opsOf r.config taken)).2).Sublist r.sent

/-- How far a run is with the events that it has taken from the stream. -/
inductive Following (start : Runtime) (taken : List Mapping) (r : Run) : Prop
  /-- the consumer has not been started -/
  | unstarted (hconsumer : r.consumer = none) (hsignal : r.signal = none) (hstop : r.stop = false)
      (htaken : taken = []) (hruntime : r.runtime = start)
  | reading (c : Consumer) (h : Reading start taken r c)
  | signalled (s : TerminalSignal) (h : Signalled start taken r s)
  /-- the run is over before a signal came -/
  | cut (hlate : r.late = true) (hsignal : r.signal = none)
      (hconsumer : ∀ c, r.consumer = some c → c.cancelled = true)

variable {start : Runtime} {taken : List Mapping}

theorem Reading.reads (h : Reading start taken r c) (hlast : SignalLast c.stage.ops)
    (hr : r.Reads c r') : Following start taken r' := by
  obtain ⟨done, hops, hdone⟩ := h.ops
  obtain ⟨before, hbefore, hsent⟩ := h.sent
  have hruntime := h.runtime
  -- where the operations that are done stay the same
  have hmove : ∀ stage : ConsumerStage, stage ≠ .ended → r'.early = r.early →
      r'.consumer = some { c with stage := stage } → r'.stop = r.stop → r'.signal = r.signal →
      r'.config = r.config → stage.ops = c.stage.ops →
      (stage.ahead r.config r'.runtime).1 = (c.stage.ahead r.config r.runtime).1 →
      (∃ before', before'.Sublist r'.sent ∧
        before' ++ updatesOf (stage.ahead r.config r'.runtime).2 =
          before ++ updatesOf (c.stage.ahead r.config r.runtime).2) →
      Following start taken r' := by
    intro stage hended hearly hconsumer hstop hsignal hconfig hsame hahead hput
    refine .reading _ ⟨hearly.trans h.early, hconsumer, h.cancelled, hended, hstop.trans h.stop,
      hsignal.trans h.signal, ?_, ?_, ?_⟩
    · rw [hconfig]
      exact ⟨done, hsame ▸ hops, hdone⟩
    · rw [hconfig]
      exact hahead.trans hruntime
    · rw [hconfig]
      obtain ⟨before', hsub, heq⟩ := hput
      exact ⟨before', hsub, heq.trans hsent⟩
  cases hr with
  | idle hs =>
      refine hmove .waiting (fun hcon => by cases hcon) rfl rfl rfl rfl rfl ?_ ?_
        ⟨before, hbefore, ?_⟩ <;> rw [hs] <;> rfl
  | signal s ops hs =>
      rw [hs] at hops hruntime hsent hlast
      -- the signal is the last operation of its event
      have hnil : ops = [] := hlast [] s ops rfl
      subst hnil
      refine .signalled s ⟨h.early, rfl, ⟨done, hops, hdone⟩, ?_, ?_⟩
      · exact congrArg (fun rt : Runtime => rt.out.upstreamError) hruntime
      · have hall : updatesOf (handleOps r.config start (opsOf r.config taken)).2 = before := by
          rw [← hsent]
          exact List.append_nil before
        show (updatesOf (handleOps r.config start (opsOf r.config taken)).2).Sublist r.sent
        rw [hall]
        exact hbefore
  | op op ops hs hop =>
      rw [hs] at hops hruntime hsent
      refine .reading _ ⟨h.early, rfl, h.cancelled, (fun hcon => by cases hcon), h.stop, h.signal,
        ⟨done ++ [op], ?_, ?_⟩, hruntime, before, hbefore, hsent⟩
      · rw [List.append_assoc]
        exact hops
      · refine hdone.append ?_
        intro s hmem
        exact hop s (List.mem_singleton.mp hmem).symm
  | act a acts ops stage hs hstage hput =>
      have hahead := aheadOf_cons_of_not_put r.runtime acts ops hput
      -- busy or waiting for the tracker, it has the same acts ahead
      obtain ⟨hended, hleft, hrest⟩ : stage ≠ .ended ∧ stage.ops = ops ∧
          ∀ rt, stage.ahead r.config rt = aheadOf r.config rt acts ops := by
        rcases hstage with rfl | rfl
        · exact ⟨(fun hcon => by cases hcon), rfl, fun _ => rfl⟩
        · exact ⟨(fun hcon => by cases hcon), rfl, fun _ => rfl⟩
      refine hmove stage hended rfl rfl rfl rfl rfl ?_ ?_ ⟨before, hbefore, ?_⟩ <;> rw [hs]
      · exact hleft
      · rw [hrest]
        exact congrArg Prod.fst hahead.symm
      · rw [hrest]
        exact congrArg (fun x : Runtime × List Event => before ++ updatesOf x.2) hahead.symm
  | enqueue a acts ops e hs hput =>
      have hahead := aheadOf_cons_of_put r.runtime acts ops hput
      refine hmove (.putting e acts ops) (fun hcon => by cases hcon) rfl rfl rfl rfl rfl ?_ ?_
        ⟨before, hbefore, ?_⟩ <;> rw [hs]
      · rfl
      · exact congrArg Prod.fst hahead.symm
      · exact congrArg (fun x : Runtime × List Event => before ++ updatesOf x.2) hahead.symm
  | put e acts ops hs =>
      -- what was on its way is in the queue
      refine hmove (.busy acts ops) (fun hcon => by cases hcon) rfl rfl rfl rfl rfl ?_ ?_
        ⟨before ++ e.update?.toList, ?_, ?_⟩
      · rw [hs]
        rfl
      · rw [hs]
        rfl
      · show (before ++ e.update?.toList).Sublist (sentOf (r.queue ++ [(.run, e)]))
        rw [sentOf_concat]
        exact hbefore.append_right _
      · rw [hs, List.append_assoc]
        congr 1
        show _ = updatesOf ([e] ++ (aheadOf r.config r.runtime acts ops).2)
        rw [updatesOf_append]
        cases e <;> rfl
  | tracked acts ops hs =>
      refine hmove (.busy acts ops) (fun hcon => by cases hcon) rfl rfl rfl rfl rfl ?_ ?_
        ⟨before, hbefore, ?_⟩ <;> rw [hs] <;> rfl

/-- An event arrives. -/
theorem Reading.deliver (h : Reading start taken r c) (hs : c.stage = .waiting) (event : Mapping) :
    Reading start (taken ++ [event]) (r.setConsumer c (.busy [] (eventOps r.config event)))
      { c with stage := .busy [] (eventOps r.config event) } := by
  obtain ⟨done, hops, hdone⟩ := h.ops
  obtain ⟨before, hbefore, hsent⟩ := h.sent
  have hruntime := h.runtime
  rw [hs] at hops hruntime hsent
  have hnow : opsOf r.config (taken ++ [event]) = opsOf r.config taken ++ eventOps r.config event := by
    rw [opsOf_append]
    exact congrArg _ (List.append_nil _)
  have hstart : (handleOps r.config start (opsOf r.config taken)).1 = r.runtime := hruntime.symm
  have hput : before = updatesOf (handleOps r.config start (opsOf r.config taken)).2 :=
    (List.append_nil before).symm.trans hsent
  refine ⟨h.early, rfl, h.cancelled, (fun hcon => by cases hcon), h.stop, h.signal, ?_, ?_, ?_⟩
  · refine ⟨done, ?_, hdone⟩
    show opsOf r.config (taken ++ [event]) = _
    rw [hnow, hops]
    exact congrArg (· ++ eventOps r.config event) (List.append_nil done)
  · show _ = (handleOps r.config start (opsOf r.config (taken ++ [event]))).1
    rw [hnow, handleOps_append, hstart]
    rfl
  · refine ⟨before, hbefore, ?_⟩
    show _ = updatesOf (handleOps r.config start (opsOf r.config (taken ++ [event]))).2
    rw [hnow, handleOps_append, hstart, updatesOf_append, ← hput]
    rfl

theorem Run.Resumes.sent_sublist {stage : Stage} (h : r.Resumes stage r') :
    r.sent.Sublist r'.sent := by
  unfold Run.sent
  rcases h.queue with hq | ⟨-, hq⟩ | ⟨e, rest, -, hq⟩ <;> rw [hq]
  · rw [sentOf_concat]
    exact List.sublist_append_left _ _
  · rw [sentOf_concat]
    exact List.sublist_append_left _ _

theorem config_of_step {a : Answer} (h : r.step a = some r') (hearly : r.early = false) :
    r'.config = r.config := by
  have hzone : r.stage.zone ≠ .before := by
    intro hzone
    unfold Run.early at hearly
    cases hs : r.stage <;> rw [hs] at hzone hearly <;> first | (cases hearly; done) | cases hzone
  unfold Run.config
  rw [(Run.passes_of_step h).session hzone, (Run.step_keeps h).prepared]

/-! ## §5  A whole run -/

theorem Following.resumes (h : Following start taken r) {a : Answer} {stage : Stage}
    (hstep : r.step a = some r') (hs : r.stage = stage) (hr : r.Resumes stage r')
    (hstream : r.prepared.streamingRequest = true) : Following start taken r' := by
  have hkeeps := hr.keeps
  have hearly : r.early = false → r'.early = false := by
    intro hearly
    rw [← Bool.not_eq_true]
    intro hcon
    exact absurd ((hr.early hs hcon).1.symm.trans hearly) (by decide)
  by_cases hrecord : stage = .recording
  · subst hrecord
    have hfirst : r.early = true := by
      unfold Run.early
      rw [hs]
    cases h with
    | unstarted hconsumer hsignal hstop htaken hruntime =>
        -- the consumer is started
        cases hr with
        | record =>
            rw [hstream, if_pos rfl]
            refine .reading {} ?_
            unfold Run.afterRecording
            split
            all_goals
              refine ⟨rfl, rfl, rfl, (fun hcon => by cases hcon), hstop, hsignal, ?_, ?_, ?_⟩
              · exact ⟨[], by rw [htaken]; rfl, fun s hmem => by cases hmem⟩
              · rw [htaken]
                exact hruntime
              · rw [htaken]
                exact ⟨[], List.nil_sublist _, rfl⟩
        | fail stage e hwhere => rcases hwhere with h | h | h | ⟨_, h⟩ | ⟨_, h⟩ <;> cases h
    | reading c h => exact absurd (hfirst.symm.trans h.early) (by decide)
    | signalled s h => exact absurd (hfirst.symm.trans h.early) (by decide)
    | cut hlate =>
        unfold Run.late at hlate
        rw [hs] at hlate
        cases hlate
  cases h with
  | unstarted hconsumer hsignal hstop htaken hruntime =>
      rcases hr.tends hrecord with ⟨hc, hst⟩ | ⟨hlate, hcancelled⟩
      · exact .unstarted (hc.trans hconsumer) (hkeeps.signal.trans hsignal) (hst.trans hstop) htaken
          ((hr.runtime (.inl hsignal)).trans hruntime)
      · exact .cut hlate (hkeeps.signal.trans hsignal) hcancelled
  | reading c h =>
      rcases hr.tends hrecord with ⟨hc, hst⟩ | ⟨hlate, hcancelled⟩
      · obtain ⟨before, hbefore, hsent⟩ := h.sent
        refine .reading c ⟨hearly h.early, hc.trans h.consumer, h.cancelled, h.ended, hst.trans h.stop,
          hkeeps.signal.trans h.signal, ?_, ?_, ?_⟩ <;>
          rw [config_of_step hstep h.early]
        · exact h.ops
        · rw [hr.runtime (.inl h.signal)]
          exact h.runtime
        · rw [hr.runtime (.inl h.signal)]
          exact ⟨before, hbefore.trans hr.sent_sublist, hsent⟩
      · exact .cut hlate (hkeeps.signal.trans h.signal) hcancelled
  | signalled s h =>
      refine .signalled s ⟨hearly h.early, hkeeps.signal.trans h.signal, ?_, ?_, ?_⟩ <;>
        rw [config_of_step hstep h.early]
      · exact h.ops
      · exact hkeeps.upstreamError.trans h.upstreamError
      · exact h.sent.trans hr.sent_sublist
  | cut hlate hsignal hcancelled =>
      refine .cut (hr.late hs hlate).1 (hkeeps.signal.trans hsignal) ?_
      rcases hr.tends hrecord with ⟨hc, -⟩ | ⟨-, hall⟩
      · rw [hc]
        exact hcancelled
      · exact hall

theorem Signalled.consumes {s : TerminalSignal} (h : Signalled start taken r s)
    (hstocked : Stocked r) (hc : r.consumer = some c) (hmove : r.Consumes c act r') :
    Signalled start taken r' s := by
  have hsame := hmove.same
  have hne : r.signal ≠ none := by
    rw [h.signal]
    exact Option.some_ne_none s
  obtain ⟨hruntime, hsignal⟩ := hmove.runtime hc hstocked hne
  have hconfig : r'.config = r.config := by
    unfold Run.config
    rw [hsame.session, hsame.prepared]
  have hsent : r.sent.Sublist r'.sent := by
    unfold Run.sent
    rcases hmove.queue with hq | ⟨e, -, -, hq⟩ <;> rw [hq]
    rw [sentOf_concat]
    exact List.sublist_append_left _ _
  refine ⟨?_, hsignal.trans h.signal, ?_, ?_, ?_⟩
  · unfold Run.early
    rw [hsame.stage]
    exact h.early
  · rw [hconfig]
    exact h.ops
  · rw [hconfig, hruntime]
    exact h.upstreamError
  · rw [hconfig]
    exact h.sent.trans hsent

/-- The consumer, or the stream it reads, moves. -/
theorem Following.moves (h : Following start taken r) (hstocked : Stocked r)
    (hattended : Attended r act) (hact : ∀ a, act ≠ .step a) (hstep : r.act act = some r')
    (hc : r.consumer = some c) (hmove : r.Consumes c act r') :
    Following start (taken ++ r.takes act) r' := by
  cases h with
  | unstarted hconsumer => exact absurd (hconsumer.symm.trans hc) (by simp)
  | reading c' h =>
      obtain rfl : c = c' := Option.some.inj (hc.symm.trans h.consumer)
      cases act with
      | consume =>
          have htakes : taken ++ r.takes .consume = taken := List.append_nil taken
          rw [htakes]
          exact h.reads (hstocked.last c hc) (Run.reads_of_consume hc h.cancelled h.signal hstep)
      | deliver event =>
          have htakes : taken ++ r.takes (.deliver event) = taken ++ [event] := by
            simp only [Run.takes, h.stop, Bool.false_eq_true, if_false]
          rw [htakes]
          unfold Run.act Run.deliver at hstep
          simp only at hstep
          split at hstep
          · rename_i hwaiting
            obtain rfl : c = {} := Option.some.inj (hc.symm.trans hwaiting)
            rw [h.stop, if_neg (by decide)] at hstep
            cases hstep
            exact .reading _ (h.deliver rfl event)
          · cases hstep
      | close => exact absurd h.signal (hattended.2.1 rfl)
      | streamFails =>
          have hwaiting := (hattended.2.2 rfl).resolve_left (not_not_intro h.signal)
          obtain rfl : c = {} := Option.some.inj (hc.symm.trans hwaiting)
          have htakes : taken ++ r.takes .streamFails = taken := List.append_nil taken
          rw [htakes]
          simp only [Run.act, Run.streamFails, hwaiting, h.stop, Bool.false_eq_true, if_false] at hstep
          cases hstep
          exact .reading {} ⟨h.early, rfl, rfl, h.ended, h.stop, h.signal, h.ops, h.runtime, h.sent⟩
      | step a => exact absurd rfl (hact a)
      | cancel => exact absurd rfl hattended.1.1
      | cancelStep a => exact absurd rfl (hattended.1.2 a)
  | signalled s h =>
      have hne : r.signal ≠ none := by
        rw [h.signal]
        exact Option.some_ne_none s
      have htakes : r.takes act = [] := by
        unfold Run.takes
        split
        · rw [(hstocked.quiet hne).1, if_pos rfl]
        · rfl
      rw [htakes, List.append_nil]
      exact .signalled s (h.consumes hstocked hc hmove)
  | cut hlate hsignal hcancelled =>
      have hcan := hcancelled c hc
      cases hmove with
      | cancelled =>
          have htakes : taken ++ r.takes .consume = taken := List.append_nil taken
          rw [htakes]
          refine .cut hlate hsignal ?_
          intro c' hc'
          cases hc'
          exact hcan
      | streamOver _ hnot | idle _ hnot | deliver _ hnot | signal _ _ hnot | signalAgain _ _ hnot
      | op _ _ hnot | act _ _ _ _ hnot | enqueue _ _ _ _ hnot | put _ _ _ hnot
      | tracked _ _ hnot =>
          exact absurd (hcan.symm.trans hnot) (by decide)

/-- What the run knows of its stream, besides what any run that is not cancelled keeps. -/
structure Traced (start : Runtime) (taken : List Mapping) (r : Run) : Prop where
  underway : Underway r
  stocked : Stocked r
  following : Following start taken r

theorem traced_initial {prepared : PreparedExecution} (h : prepared.streamingRequest = true) :
    Traced (Run.initial prepared).runtime [] (Run.initial prepared) :=
  ⟨underway_initial h, stocked_initial prepared, .unstarted rfl rfl rfl rfl rfl⟩

theorem traced_step (h : Traced start taken r) (hattended : Attended r act)
    (hstep : r.act act = some r') : Traced start (taken ++ r.takes act) r' := by
  refine ⟨underway_step h.underway hattended.1 hstep, stocked_step h.stocked hstep, ?_⟩
  have hmoves : (∀ a, act ≠ .step a) → (∃ c, r.consumer = some c ∧ r.Consumes c act r') →
      Following start (taken ++ r.takes act) r' := by
    rintro hact ⟨c, hc, hmove⟩
    exact h.following.moves h.stocked hattended hact hstep hc hmove
  cases act with
  | step a =>
      have htakes : taken ++ r.takes (.step a) = taken := List.append_nil taken
      rw [htakes]
      rcases Run.step_cases hstep with ⟨hcan, -, -⟩ | ⟨-, hr⟩
      · exact absurd (h.underway.uncancelled.symm.trans hcan) (by decide)
      · exact h.following.resumes hstep rfl hr h.underway.streaming
  | consume => exact hmoves (fun _ hcon => by cases hcon) (Run.consume_cases hstep)
  | deliver event => exact hmoves (fun _ hcon => by cases hcon) (Run.deliver_cases hstep)
  | close => exact hmoves (fun _ hcon => by cases hcon) (Run.close_cases hstep)
  | streamFails => exact hmoves (fun _ hcon => by cases hcon) (Run.streamFails_cases hstep)
  | cancel => exact absurd rfl hattended.1.1
  | cancelStep a => exact absurd rfl (hattended.1.2 a)

theorem traced_run {prepared : PreparedExecution} (hstream : prepared.streamingRequest = true)
    {acts : List RunAction} {r : Run}
    (h : Machine.Runs Run.act Attended (Run.initial prepared) acts r) :
    Traced (Run.initial prepared).runtime (takenEvents prepared acts) r :=
  h.gather_invariant (fun _ _ _ _ hi hok hstep => traced_step hi hok hstep)
    (traced_initial hstream)

end OpencodeA2a.Execution
