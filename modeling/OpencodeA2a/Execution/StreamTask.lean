import OpencodeA2a.Library.Machine
import OpencodeA2a.Execution.Run
import OpencodeA2a.Stream.Consumption

/-!
# The stream task of a run is the consumer

A run whose coordinator rests can take its stream task through any events, and then
stands where `Consumption.take` comes to, whatever the tracker's calls do.
-/

namespace OpencodeA2a.Execution

open OpencodeA2a.Stream

variable {σ : Type} {cfg : Config} {track : σ → TrackerCall → σ × Bool}
  {q : List (Author × Event)} {r : Run} {c : Consumption σ}

def RunAction.event? : RunAction → Option Mapping
  | .deliver event => some event
  | _ => none

/-- The stream task, at the given stage, has done what the consumer has, from when
the queue was `q`. -/
structure Serves (cfg : Config) (q : List (Author × Event)) (r : Run) (c : Consumption σ)
    (stage : ConsumerStage) : Prop where
  config : r.config = cfg
  runtime : r.runtime = c.runtime
  signal : r.signal = c.signal
  stop : r.stop = c.stop
  queue : r.queue = q ++ c.enqueued.map fun e => (.run, e)
  consumer : r.consumer = some ⟨stage, false⟩

/-- The run performs the actions, which deliver the events, and then serves. -/
def Reaches (cfg : Config) (q : List (Author × Event)) (r : Run) (events : List Mapping)
    (c : Consumption σ) (stage : ConsumerStage) : Prop :=
  ∃ as r', Machine.run Run.act r as = some r' ∧ as.filterMap RunAction.event? = events ∧
    Serves cfg q r' c stage

theorem Serves.reaches {stage : ConsumerStage} (h : Serves cfg q r c stage) :
    Reaches cfg q r [] c stage :=
  ⟨[], r, rfl, rfl, h⟩

theorem Reaches.trans {events events' : List Mapping} {c' : Consumption σ}
    {stage stage' : ConsumerStage} (h : Reaches cfg q r events c stage)
    (hnext : ∀ r', Serves cfg q r' c stage → Reaches cfg q r' events' c' stage') :
    Reaches cfg q r (events ++ events') c' stage' := by
  obtain ⟨as, r', hrun, hevents, hserves⟩ := h
  obtain ⟨as', r'', hrun', hevents', hserves'⟩ := hnext r' hserves
  refine ⟨as ++ as', r'', ?_, ?_, hserves'⟩
  · rw [Machine.run_append, hrun]
    exact hrun'
  · rw [List.filterMap_append, hevents, hevents']

/-- A step that delivers nothing. -/
theorem reaches_step {r' : Run} {stage : ConsumerStage} {a : RunAction} (ha : a.event? = none)
    (hstep : r.act a = some r') (h : Serves cfg q r' c stage) : Reaches cfg q r [] c stage := by
  refine ⟨[a], r', ?_, ?_, h⟩
  · simp only [Machine.run, hstep, Option.bind_some]
  · simp only [List.filterMap, ha]

/-- Where an exception leaves the stream task. -/
def afterException (c : Consumption σ) : ConsumerStage := if c.stop then .ended else .waiting

theorem Serves.streamFails {stage : ConsumerStage} (h : Serves cfg q r c stage)
    (hstage : ∃ acts ops, stage = .tracking acts ops) :
    Reaches cfg q r [] c (afterException c) := by
  obtain ⟨acts, ops, rfl⟩ := hstage
  have hstep : r.act .streamFails =
      some (r.setConsumer {} (if r.stop then .ended else .waiting)) := by
    show r.streamFails = _
    simp only [Run.streamFails, h.consumer]
  refine reaches_step rfl hstep ⟨h.config, h.runtime, h.signal, h.stop, h.queue, ?_⟩
  rw [h.stop]
  rfl

theorem Serves.act {a : Act} {acts : List Act} {ops : List Op}
    (h : Serves cfg q r c (.busy (a :: acts) ops)) :
    Reaches cfg q r [] (Consumption.act cfg track c a).1
      (if (Consumption.act cfg track c a).2 then .busy acts ops
      else afterException (Consumption.act cfg track c a).1) := by
  generalize hout : (a.perform cfg c.runtime.out).1 = out
  have hruntime : { r.runtime with out := out } = { c.runtime with out := out } := by
    rw [h.runtime]
  cases heffect : (a.perform cfg c.runtime.out).2 with
  | silent =>
      have hact : Consumption.act cfg track c a =
          ({ c with runtime := { c.runtime with out := out } }, true) := by
        simp only [Consumption.act, heffect, hout]
      have hstep : r.act .consume = some ({ r with runtime := { r.runtime with out := out } }.setConsumer
          ⟨.busy (a :: acts) ops, false⟩ (.busy acts ops)) := by
        show r.consume = _
        simp only [Run.consume, h.consumer, h.config, h.runtime, heffect, hout]
        rfl
      rw [hact]
      exact reaches_step rfl hstep ⟨h.config, hruntime, h.signal, h.stop, h.queue, rfl⟩
  | put e =>
      have hact : Consumption.act cfg track c a =
          ({ c with
              runtime := { c.runtime with out := out }
              enqueued := c.enqueued ++ [e]
              statuses := c.statuses ++ a.interrupt?.toList }, true) := by
        simp only [Consumption.act, heffect, hout]
      have hstep : r.act .consume = some ({ r with runtime := { r.runtime with out := out } }.setConsumer
          ⟨.busy (a :: acts) ops, false⟩ (.putting e acts ops)) := by
        show r.consume = _
        simp only [Run.consume, h.consumer, h.config, h.runtime, heffect, hout]
        rfl
      have hserves : Serves cfg q ({ r with runtime := { r.runtime with out := out } }.setConsumer
          ⟨.busy (a :: acts) ops, false⟩ (.putting e acts ops))
          { c with runtime := { c.runtime with out := out } } (.putting e acts ops) :=
        ⟨h.config, hruntime, h.signal, h.stop, h.queue, rfl⟩
      rw [hact]
      refine (reaches_step rfl hstep hserves).trans ?_
      intro r' h'
      have hstep' : r'.act .consume = some ((r'.put .run e).setConsumer
          ⟨.putting e acts ops, false⟩ (.busy acts ops)) := by
        show r'.consume = _
        simp only [Run.consume, h'.consumer]
        rfl
      refine reaches_step rfl hstep' ⟨h'.config, h'.runtime, h'.signal, h'.stop, ?_, rfl⟩
      show r'.queue ++ [(.run, e)] = q ++ (c.enqueued ++ [e]).map fun e => (.run, e)
      rw [h'.queue, List.map_append, List.append_assoc]
      rfl
  | track =>
      obtain ⟨call, hcall⟩ := call?_of_track heffect
      have hact : Consumption.act cfg track c a =
          ({ c with
              runtime := { c.runtime with out := out }
              tracker := (track c.tracker call).1
              calls := c.calls ++ [call] }, (track c.tracker call).2) := by
        simp only [Consumption.act, heffect, hout, hcall]
      have hstep : r.act .consume = some ({ r with runtime := { r.runtime with out := out } }.setConsumer
          ⟨.busy (a :: acts) ops, false⟩ (.tracking acts ops)) := by
        show r.consume = _
        simp only [Run.consume, h.consumer, h.config, h.runtime, heffect, hout]
        rfl
      have hserves : Serves cfg q ({ r with runtime := { r.runtime with out := out } }.setConsumer
          ⟨.busy (a :: acts) ops, false⟩ (.tracking acts ops))
          { c with
            runtime := { c.runtime with out := out }
            tracker := (track c.tracker call).1
            calls := c.calls ++ [call] } (.tracking acts ops) :=
        ⟨h.config, hruntime, h.signal, h.stop, h.queue, rfl⟩
      rw [hact]
      refine (reaches_step rfl hstep hserves).trans ?_
      intro r' h'
      by_cases hreturned : (track c.tracker call).2 = true
      · rw [if_pos hreturned]
        have hstep' : r'.act .consume = some (r'.setConsumer
            ⟨.tracking acts ops, false⟩ (.busy acts ops)) := by
          show r'.consume = _
          simp only [Run.consume, h'.consumer]
          rfl
        exact reaches_step rfl hstep' ⟨h'.config, h'.runtime, h'.signal, h'.stop, h'.queue, rfl⟩
      · rw [if_neg hreturned]
        exact h'.streamFails ⟨acts, ops, rfl⟩

theorem Serves.acts {acts : List Act} {ops : List Op} (h : Serves cfg q r c (.busy acts ops)) :
    Reaches cfg q r [] (Consumption.acts cfg track c acts).1
      (if (Consumption.acts cfg track c acts).2 then .busy [] ops
      else afterException (Consumption.acts cfg track c acts).1) := by
  induction acts generalizing r c with
  | nil => exact h.reaches
  | cons a acts ih =>
      have hfirst : Reaches cfg q r [] (Consumption.act cfg track c a).1
          (if (Consumption.act cfg track c a).2 then .busy acts ops
          else afterException (Consumption.act cfg track c a).1) := h.act
      rcases hdone : Consumption.act cfg track c a with ⟨c', _ | _⟩ <;> rw [hdone] at hfirst
      · rw [Consumption.acts_of_raised hdone]
        exact hfirst
      · rw [Consumption.acts_of_returned hdone]
        exact hfirst.trans fun r' h' => ih h'

theorem Serves.op {op : Op} {ops : List Op} (h : Serves cfg q r c (.busy [] (op :: ops))) :
    Reaches cfg q r [] (Consumption.op cfg track c op).1
      (if (Consumption.op cfg track c op).2 then .busy [] ops
      else afterException (Consumption.op cfg track c op).1) := by
  by_cases hop : ∃ s, op = .terminalSignal s
  · obtain ⟨s, rfl⟩ := hop
    cases hsignal : c.signal with
    | some s' =>
        have hdone : Consumption.op cfg track c (.terminalSignal s) = (c, true) := by
          simp only [Consumption.op, hsignal]
        have hstep : r.act .consume = some (r.setConsumer
            ⟨.busy [] (.terminalSignal s :: ops), false⟩ (.busy [] ops)) := by
          show r.consume = _
          simp only [Run.consume, h.consumer, h.signal, hsignal]
          rfl
        rw [hdone]
        exact reaches_step rfl hstep ⟨h.config, h.runtime, h.signal, h.stop, h.queue, rfl⟩
    | none =>
        have hdone : Consumption.op cfg track c (.terminalSignal s) =
            ({ c with signal := some s, stop := true }, true) := by
          simp only [Consumption.op, hsignal]
        have hstep : r.act .consume = some { r.setConsumer
            ⟨.busy [] (.terminalSignal s :: ops), false⟩ (.busy [] ops) with
              signal := some s, stop := true } := by
          show r.consume = _
          simp only [Run.consume, h.consumer, h.signal, hsignal]
          rfl
        rw [hdone]
        exact reaches_step rfl hstep ⟨h.config, h.runtime, rfl, rfl, h.queue, rfl⟩
  · have hother : ∀ s, op ≠ .terminalSignal s := fun s hs => hop ⟨s, hs⟩
    have hstep : r.act .consume = some { r.setConsumer ⟨.busy [] (op :: ops), false⟩
        (.busy (op.perform cfg c.runtime).2 ops) with
          runtime := (op.perform cfg c.runtime).1 } := by
      show r.consume = _
      cases op with
      | terminalSignal s => exact absurd rfl (hother s)
      | progress | upstreamError | usage | asked | resolved | part =>
          simp only [Run.consume, h.consumer, h.config, h.runtime]
          rfl
    have hserves : Serves cfg q { r.setConsumer ⟨.busy [] (op :: ops), false⟩
        (.busy (op.perform cfg c.runtime).2 ops) with
          runtime := (op.perform cfg c.runtime).1 }
        { c with runtime := (op.perform cfg c.runtime).1 }
        (.busy (op.perform cfg c.runtime).2 ops) :=
      ⟨h.config, rfl, h.signal, h.stop, h.queue, rfl⟩
    rw [Consumption.op_eq_acts hother]
    refine (reaches_step rfl hstep hserves).trans ?_
    intro r' h'
    exact h'.acts

theorem Serves.ops {ops : List Op} (h : Serves cfg q r c (.busy [] ops)) :
    Reaches cfg q r [] (Consumption.ops cfg track c ops).1
      (if (Consumption.ops cfg track c ops).2 then .waiting
      else afterException (Consumption.ops cfg track c ops).1) := by
  induction ops generalizing r c with
  | nil =>
      have hstep : r.act .consume = some (r.setConsumer ⟨.busy [] [], false⟩ .waiting) := by
        show r.consume = _
        simp only [Run.consume, h.consumer]
        rfl
      exact reaches_step rfl hstep ⟨h.config, h.runtime, h.signal, h.stop, h.queue, rfl⟩
  | cons op ops ih =>
      have hfirst : Reaches cfg q r [] (Consumption.op cfg track c op).1
          (if (Consumption.op cfg track c op).2 then .busy [] ops
          else afterException (Consumption.op cfg track c op).1) := h.op
      rcases hdone : Consumption.op cfg track c op with ⟨c', _ | _⟩ <;> rw [hdone] at hfirst
      · rw [Consumption.ops_of_raised hdone]
        exact hfirst
      · rw [Consumption.ops_of_returned hdone]
        exact hfirst.trans fun r' h' => ih h'

/-- An event that the consumer takes is delivered to the stream task and handled. -/
theorem Serves.take {event : Mapping} (h : Serves cfg q r c .waiting) (hstop : c.stop = false) :
    ∃ stage, Reaches cfg q r [event] (Consumption.take cfg track c event) stage ∧
      (stage = .waiting ∨ (Consumption.take cfg track c event).stop = true) := by
  have hstep : r.act (.deliver event) =
      some (r.setConsumer {} (.busy [] (eventOps cfg event))) := by
    show r.deliver event = _
    simp only [Run.deliver, h.consumer, h.config, h.stop, hstop]
    rfl
  have hserves : Serves cfg q (r.setConsumer {} (.busy [] (eventOps cfg event))) c
      (.busy [] (eventOps cfg event)) :=
    ⟨h.config, h.runtime, h.signal, h.stop, h.queue, rfl⟩
  have hdelivered : Reaches cfg q r [event] c (.busy [] (eventOps cfg event)) := by
    refine ⟨[.deliver event], _, ?_, rfl, hserves⟩
    simp only [Machine.run, hstep, Option.bind_some]
  rw [Consumption.take_of_running hstop]
  refine ⟨_, hdelivered.trans fun r' h' => h'.ops, ?_⟩
  split
  · exact .inl rfl
  · unfold afterException
    split
    · rename_i hs
      exact .inr hs
    · exact .inl rfl

/-- The events are delivered up to the one that stops the consumer. -/
theorem Serves.takeAll {events : List Mapping} (h : Serves cfg q r c .waiting) :
    ∃ stage delivered, delivered <+: events ∧
      Reaches cfg q r delivered (events.foldl (Consumption.take cfg track) c) stage := by
  induction events generalizing r c with
  | nil => exact ⟨.waiting, [], List.prefix_refl [], h.reaches⟩
  | cons event events ih =>
      by_cases hstop : c.stop = true
      · rw [Consumption.foldl_take_of_stop hstop]
        exact ⟨.waiting, [], List.nil_prefix, h.reaches⟩
      · rw [Bool.not_eq_true] at hstop
        have htaken : ∃ stage, Reaches cfg q r [event] (Consumption.take cfg track c event) stage ∧
            (stage = .waiting ∨ (Consumption.take cfg track c event).stop = true) := h.take hstop
        obtain ⟨stage, hreaches, hstage⟩ := htaken
        rw [List.foldl_cons]
        rcases hstage with rfl | hstopped
        · obtain ⟨as, r', hrun, hevents, hserves⟩ := hreaches
          obtain ⟨stage', delivered, hfront, as', r'', hrun', hevents', hserves'⟩ := ih hserves
          refine ⟨stage', event :: delivered, List.cons_prefix_cons.mpr ⟨rfl, hfront⟩,
            as ++ as', r'', ?_, ?_, hserves'⟩
          · rw [Machine.run_append, hrun]
            exact hrun'
          · rw [List.filterMap_append, hevents, hevents']
            rfl
        · rw [Consumption.foldl_take_of_stop hstopped]
          exact ⟨stage, [event], List.cons_prefix_cons.mpr ⟨rfl, List.nil_prefix⟩, hreaches⟩

end OpencodeA2a.Execution
