import OpencodeA2a.Stream.Consumption

/-!
# Deltas ahead of their part

The deltas of a part may come before the `message.part.updated` that tells its type
and its role. They are held back until then; nothing of them is lost.
-/

namespace OpencodeA2a.Stream

/-! ## §1  The events of a part among others -/

def PartEvent.partId : PartEvent → Text
  | .delta partId _ _ => partId
  | .updated partId _ _ _ => partId

def Op.isAbout (p : Text) : Op → Bool
  | .part e => e.partId = p
  | _ => false

def Op.isSignal : Op → Bool
  | .terminalSignal _ => true
  | _ => false

/-- The first `message.part.updated` of the part: it names the type and the
assistant's role, and carries neither text nor delta. -/
structure Defines (cfg : Config) (p : Text) (b : BlockType) (event part props : Mapping) :
    Prop where
  event : EventOf cfg p "message.part.updated" event part props
  announces : Announces b true part props
  noDelta : (props.getStr? "delta").filter (· ≠ []) = none
  noText : extractOptionalString part "text" = none

/-- The deltas of the part, in order, among events that are not about the part and do
not end the session. -/
inductive Deltas (cfg : Config) (p : Text) : List Text → List Mapping → Prop
  | nil : Deltas cfg p [] []
  | delta {event part props : Mapping} {x : Text} {xs : List Text} {events : List Mapping}
      (h : EventOf cfg p "message.part.delta" event part props)
      (hfield : props.getStr? "field" = some "text".toList)
      (hdelta : props.getStr? "delta" = some x) (hrest : Deltas cfg p xs events) :
      Deltas cfg p (x :: xs) (event :: events)
  | other {event : Mapping} {xs : List Text} {events : List Mapping}
      (h : ∀ o ∈ eventOps cfg event, o.isAbout p = false ∧ o.isSignal = false)
      (hrest : Deltas cfg p xs events) : Deltas cfg p xs (event :: events)

namespace Consumption

variable {σ : Type} (cfg : Config) (track : σ → TrackerCall → σ × Bool) (p : Text)

/-- The text put into the queue while the events about the part are handled. -/
def shownFor : Consumption σ → List Mapping → Text
  | _, [] => []
  | c, event :: events =>
      let c' := take cfg track c event
      (if (eventOps cfg event).any (Op.isAbout p) then
          shownText (c'.enqueued.drop c.enqueued.length) else []) ++ shownFor c' events

/-! ## §2  Events about something else -/

variable {cfg track p} {c c' : Consumption σ}

/-- What is known and held of the part is the same, and whether the consumer runs. -/
structure SamePart (p : Text) (c c' : Consumption σ) : Prop where
  partState : c'.runtime.partStates p = c.runtime.partStates p
  pending : c'.runtime.pendingDeltas p = c.runtime.pendingDeltas p
  stop : c'.stop = c.stop

theorem SamePart.refl (c : Consumption σ) : SamePart p c c := ⟨rfl, rfl, rfl⟩

theorem SamePart.trans {c'' : Consumption σ} (h : SamePart p c c') (h' : SamePart p c' c'') :
    SamePart p c c'' :=
  ⟨h'.partState.trans h.partState, h'.pending.trans h.pending, h'.stop.trans h.stop⟩

theorem act_samePart (c : Consumption σ) (a : Act) : SamePart p c (act cfg track c a).1 := by
  unfold act
  simp only
  split <;> exact ⟨rfl, rfl, rfl⟩

theorem acts_samePart (c : Consumption σ) (as : List Act) :
    SamePart p c (acts cfg track c as).1 := by
  induction as generalizing c with
  | nil => exact .refl c
  | cons a as ih =>
      have hfirst : SamePart p c (act cfg track c a).1 := act_samePart c a
      rcases hdone : act cfg track c a with ⟨c', _ | _⟩ <;> rw [hdone] at hfirst
      · rw [acts_of_raised hdone]
        exact hfirst
      · rw [acts_of_returned hdone]
        exact hfirst.trans (ih c')

theorem handlePart_elsewhere {rt : Runtime} {e : PartEvent} (h : e.partId ≠ p) :
    (rt.handlePart cfg e).1.partStates p = rt.partStates p ∧
      (rt.handlePart cfg e).1.pendingDeltas p = rt.pendingDeltas p := by
  cases e with
  | delta partId x mid =>
      have hne : p ≠ partId := fun heq => h heq.symm
      simp only [Runtime.handlePart]
      split
      · exact ⟨rfl, Function.update_of_ne hne ..⟩
      · split
        · exact ⟨rfl, rfl⟩
        · exact ⟨Function.update_of_ne hne .., rfl⟩
  | updated partId part props mid =>
      have hne : p ≠ partId := fun heq => h heq.symm
      simp only [Runtime.handlePart]
      split
      · exact ⟨rfl, Function.update_of_ne hne ..⟩
      · split <;> exact ⟨Function.update_of_ne hne .., Function.update_of_ne hne ..⟩

theorem op_samePart {o : Op} (h : o.isAbout p = false ∧ o.isSignal = false) (c : Consumption σ) :
    SamePart p c (op cfg track c o).1 := by
  have hsignal : ∀ s, o ≠ .terminalSignal s := by
    rintro s rfl
    cases h.2
  rw [op_eq_acts hsignal]
  refine SamePart.trans ?_ (acts_samePart _ _)
  cases o with
  | terminalSignal s => exact absurd rfl (hsignal s)
  | upstreamError | usage => exact ⟨rfl, rfl, rfl⟩
  | progress i q mid =>
      simp only [Op.perform]
      split <;> exact ⟨rfl, rfl, rfl⟩
  | asked a =>
      simp only [Op.perform]
      split <;> exact ⟨rfl, rfl, rfl⟩
  | resolved a =>
      simp only [Op.perform]
      split <;> exact ⟨rfl, rfl, rfl⟩
  | part e =>
      obtain ⟨hstate, hpending⟩ := @handlePart_elsewhere cfg p c.runtime e (of_decide_eq_false h.1)
      exact ⟨hstate, hpending, rfl⟩

theorem ops_samePart {os : List Op} (h : ∀ o ∈ os, o.isAbout p = false ∧ o.isSignal = false)
    (c : Consumption σ) : SamePart p c (ops cfg track c os).1 := by
  induction os generalizing c with
  | nil => exact .refl c
  | cons o os ih =>
      have hfirst : SamePart p c (op cfg track c o).1 := op_samePart (h o (List.mem_cons_self ..)) c
      rcases hdone : op cfg track c o with ⟨c', _ | _⟩ <;> rw [hdone] at hfirst
      · rw [ops_of_raised hdone]
        exact hfirst
      · rw [ops_of_returned hdone]
        exact hfirst.trans (ih (fun o' ho' => h o' (List.mem_cons_of_mem o ho')) c')

theorem take_samePart {event : Mapping}
    (h : ∀ o ∈ eventOps cfg event, o.isAbout p = false ∧ o.isSignal = false)
    (c : Consumption σ) : SamePart p c (take cfg track c event) := by
  unfold take
  split
  · exact .refl c
  · exact ops_samePart h c

/-! ## §3  Events about the part -/

end Consumption

def Act.isOutput : Act → Bool
  | .chunk _ | .progress _ _ => true
  | _ => false

/-- No signal, and nothing for the tracker. -/
def Op.isQuiet : Op → Bool
  | .progress _ _ _ | .upstreamError _ | .usage _ | .part _ => true
  | _ => false

theorem isOutput_of_mem_perform {cfg : Config} {rt : Runtime} {o : Op} (h : o.isQuiet = true)
    {a : Act} (ha : a ∈ (o.perform cfg rt).2) : a.isOutput = true := by
  cases o with
  | terminalSignal | asked | resolved => cases h
  | upstreamError | usage => cases ha
  | progress i q mid =>
      simp only [Op.perform] at ha
      split at ha
      · cases ha
      · split at ha
        · obtain rfl := List.mem_singleton.mp ha
          rfl
        · cases ha
  | part e =>
      obtain ⟨chunk, -, rfl⟩ := List.mem_map.mp ha
      rfl

namespace Consumption

variable {σ : Type} {cfg : Config} {track : σ → TrackerCall → σ × Bool} {p : Text}
  {c c' : Consumption σ}

/-- The consumer with another runtime, and the events put into the queue. -/
def putting (c : Consumption σ) (runtime : Runtime) (events : List Event) : Consumption σ :=
  { c with runtime := runtime, enqueued := c.enqueued ++ events }

theorem act_of_output {a : Act} (h : a.isOutput = true) (c : Consumption σ) :
    act cfg track c a = (c.putting
      { c.runtime with out := (performActs cfg c.runtime.out [a]).1 }
      (performActs cfg c.runtime.out [a]).2, true) := by
  have hstatus : c.statuses ++ a.interrupt?.toList = c.statuses := by
    cases a with
    | chunk | progress => exact List.append_nil _
    | rememberRequest | asked | discardRequest | resolved => cases h
  unfold act putting
  simp only [performActs, hstatus]
  cases heffect : (a.perform cfg c.runtime.out).2 with
  | put e => rfl
  | silent => simp only [List.append_nil]
  | track =>
      obtain ⟨call, hcall⟩ := call?_of_track heffect
      cases a with
      | chunk | progress => cases hcall
      | rememberRequest | asked | discardRequest | resolved => cases h

theorem acts_of_output {as : List Act} (h : ∀ a ∈ as, a.isOutput = true) (c : Consumption σ) :
    acts cfg track c as = (c.putting
      { c.runtime with out := (performActs cfg c.runtime.out as).1 }
      (performActs cfg c.runtime.out as).2, true) := by
  induction as generalizing c with
  | nil =>
      unfold putting
      simp only [acts, performActs, List.append_nil]
  | cons a as ih =>
      rw [acts_of_returned (act_of_output (h a (List.mem_cons_self ..)) c),
        ih (fun a' ha' => h a' (List.mem_cons_of_mem a ha')), performActs_cons cfg _ a as]
      unfold putting
      simp only [List.append_assoc]

/-- Nothing disturbs the handling of quiet operations. -/
theorem ops_of_quiet {os : List Op} (h : ∀ o ∈ os, o.isQuiet = true) (c : Consumption σ) :
    ops cfg track c os = (c.putting (handleOps cfg c.runtime os).1
      (handleOps cfg c.runtime os).2, true) := by
  induction os generalizing c with
  | nil =>
      unfold putting
      simp only [ops, handleOps, List.append_nil]
  | cons o os ih =>
      have hquiet := h o (List.mem_cons_self ..)
      have hsignal : ∀ s, o ≠ .terminalSignal s := by
        rintro s rfl
        cases hquiet
      have hfirst : op cfg track c o = (c.putting
          { (o.perform cfg c.runtime).1 with
            out := (performActs cfg (o.perform cfg c.runtime).1.out (o.perform cfg c.runtime).2).1 }
          (performActs cfg (o.perform cfg c.runtime).1.out (o.perform cfg c.runtime).2).2,
          true) := by
        rw [op_eq_acts hsignal, acts_of_output (fun a ha => isOutput_of_mem_perform hquiet ha)]
        rfl
      rw [ops_of_returned hfirst, ih (fun o' ho' => h o' (List.mem_cons_of_mem o ho'))]
      unfold putting
      simp only [handleOps, List.append_assoc]

/-! ## §4  What is held and what is shown -/

/-- The part is not known, its deltas are held: `arrived` in all. -/
structure Holds (p : Text) (c : Consumption σ) (arrived : Text) : Prop where
  stop : c.stop = false
  partState : c.runtime.partStates p = none
  held : StreamPartState.Held (c.runtime.pendingDeltas p)
  arrived : ((c.runtime.pendingDeltas p).map PendingDelta.delta).flatten = arrived

/-- The part is known to be the assistant's, and nothing is held. -/
structure Knows (p : Text) (b : BlockType) (c : Consumption σ) : Prop where
  stop : c.stop = false
  partState : ∃ st, c.runtime.partStates p = some st ∧ st.blockType = b ∧ st.role = some .agent
  pending : c.runtime.pendingDeltas p = []

theorem Holds.samePart {arrived : Text} (h : Holds p c arrived) (hsame : SamePart p c c') :
    Holds p c' arrived := by
  refine ⟨hsame.stop.trans h.stop, hsame.partState.trans h.partState, ?_, ?_⟩
  · rw [hsame.pending]
    exact h.held
  · rw [hsame.pending]
    exact h.arrived

theorem Knows.samePart {b : BlockType} (h : Knows p b c) (hsame : SamePart p c c') :
    Knows p b c' := by
  refine ⟨hsame.stop.trans h.stop, ?_, hsame.pending.trans h.pending⟩
  rw [hsame.partState]
  exact h.partState

/-- The assistant's chunks are all shown. -/
theorem shownText_chunks {b : BlockType} {cs : List NormalizedStreamChunk}
    (h : ∀ chunk ∈ cs, chunk.IsText b (some .agent)) (s : StreamOutputState) :
    shownText (performActs cfg s (cs.map Act.chunk)).2 = (pieces cs).flatten := by
  induction cs generalizing s with
  | nil => rfl
  | cons chunk cs ih =>
      have hchunk := h chunk (List.mem_cons_self ..)
      have hone : shownText (performActs cfg s [.chunk chunk]).2 = chunk.contentKey := by
        rcases emitChunk_isText cfg s hchunk with ⟨hdrop, -⟩ | ⟨-, s', u, hemit, hpart, -⟩
        · rw [StreamOutputState.shouldDropInitialUserEcho_of_role] at hdrop
          cases hdrop
        · simp only [performActs, Act.perform, hemit, shownText, hpart, hchunk.part, Part.textD,
            List.append_nil]
      rw [List.map_cons, performActs_cons, shownText_append, hone,
        ih fun chunk' h' => h chunk' (List.mem_cons_of_mem chunk h')]
      rfl

/-- What an event of the part is handled to. -/
theorem take_of_part {eventType : String} {event part props : Mapping}
    (h : EventOf cfg p eventType event part props)
    (htype : eventType = "message.part.delta" ∨ eventType = "message.part.updated")
    (hstop : c.stop = false) :
    ∃ out rt events, take cfg track c event = c.putting rt events ∧
      rt.partStates = (partStep cfg { c.runtime with out := out } event).1.partStates ∧
      rt.pendingDeltas = (partStep cfg { c.runtime with out := out } event).1.pendingDeltas ∧
      shownText events = shownText (performActs cfg out
        ((partStep cfg { c.runtime with out := out } event).2.map Act.chunk)).2 := by
  have hquiet : ∀ o ∈ eventOps cfg event, o.isQuiet = true := by
    intro o ho
    rw [h.eventOps htype, List.mem_append] at ho
    rcases ho with ho | ho
    · split at ho
      · rcases List.mem_append.mp ho with ho | ho
        · obtain ⟨i, q, mid, rfl⟩ := mem_progressOp? ho
          rfl
        · obtain ⟨u, -, rfl⟩ := Option.map_eq_some_iff.mp (Option.mem_toList.mp ho)
          rfl
      · cases ho
    · obtain ⟨e, -, rfl⟩ := Option.map_eq_some_iff.mp (Option.mem_toList.mp ho)
      rfl
  obtain ⟨out, before, -, -, hbefore, hops⟩ := h.handleOps htype c.runtime
  rw [take_of_running hstop, ops_of_quiet hquiet, hops]
  refine ⟨out, _, _, rfl, rfl, rfl, ?_⟩
  rw [shownText_append, hbefore, List.nil_append]

theorem Holds.delta {event part props : Mapping} {arrived x : Text} (hc : Holds p c arrived)
    (h : EventOf cfg p "message.part.delta" event part props)
    (hfield : props.getStr? "field" = some "text".toList)
    (hdelta : props.getStr? "delta" = some x) :
    ∃ rt events, take cfg track c event = c.putting rt events ∧
      Holds p (c.putting rt events) (arrived ++ x) ∧ shownText events = [] := by
  obtain ⟨out, rt, events, htake, hstates, hpending, hshown⟩ :=
    @take_of_part σ cfg track p c _ event part props h (.inl rfl) hc.stop
  refine ⟨rt, events, htake, ?_⟩
  rw [h.partStep_delta hfield hdelta] at hstates hpending hshown
  by_cases hx : x = []
  · subst hx
    rw [if_pos rfl] at hstates hpending hshown
    refine ⟨?_, hshown⟩
    rw [List.append_nil]
    exact hc.samePart ⟨congrFun hstates p, congrFun hpending p, rfl⟩
  · rw [if_neg hx] at hstates hpending hshown
    generalize hd : (⟨"text".toList, x, extractStreamMessageId part props⟩ : PendingDelta) = d
    have hhandle : ({ c.runtime with out := out } : Runtime).handlePart cfg
        (.delta p x (extractStreamMessageId part props)) =
        (({ c.runtime with out := out } : Runtime).pushPending p d, []) := by
      simp only [Runtime.handlePart, hc.partState, hd]
    rw [hhandle] at hstates hpending hshown
    have hpend : rt.pendingDeltas p = c.runtime.pendingDeltas p ++ [d] := by
      rw [hpending]
      exact Function.update_self ..
    refine ⟨⟨hc.stop, (congrFun hstates p).trans hc.partState, ?_, ?_⟩, hshown⟩
    · show StreamPartState.Held (rt.pendingDeltas p)
      rw [hpend]
      intro d' hd'
      rcases List.mem_append.mp hd' with hd' | hd'
      · exact hc.held d' hd'
      · obtain rfl := List.mem_singleton.mp hd'
        rw [← hd]
        exact ⟨rfl, hx⟩
    · show ((rt.pendingDeltas p).map PendingDelta.delta).flatten = arrived ++ x
      rw [hpend, List.map_append, List.flatten_append, hc.arrived, ← hd]
      simp

/-- The defining event: what was held is shown. -/
theorem Holds.defined {event part props : Mapping} {arrived : Text} {b : BlockType}
    (hc : Holds p c arrived) (hb : b ≠ .toolCall) (h : Defines cfg p b event part props) :
    ∃ rt events, take cfg track c event = c.putting rt events ∧
      Knows p b (c.putting rt events) ∧ shownText events = arrived := by
  obtain ⟨out, rt, events, htake, hstates, hpending, hshown⟩ :=
    @take_of_part σ cfg track p c _ event part props h.event (.inr rfl) hc.stop
  refine ⟨rt, events, htake, ?_⟩
  rw [h.event.partStep_updated] at hstates hpending hshown
  generalize hst₀ : upsertPartState cfg c.runtime.partStates p b (some .agent)
    (extractStreamMessageId part props) = st₀
  have hfresh : st₀.blockType = b ∧ st₀.role = some .agent := by
    rw [← hst₀]
    unfold upsertPartState
    rw [hc.partState]
    exact ⟨rfl, rfl⟩
  have hforeign : st₀.foreign = false := by
    unfold StreamPartState.foreign
    rw [hfresh.2]
    rfl
  obtain ⟨hcut, -⟩ := st₀.cuts_pendingChunks hc.held
  generalize hmade : st₀.pendingChunks (c.runtime.pendingDeltas p) = made at hcut
  have hupdate : made.1.updateChunks cfg part props (extractStreamMessageId part props) =
      (made.1, []) := by
    have hsnapshot : extractStreamSnapshotText part = none := by
      unfold extractStreamSnapshotText
      rw [extractFirstNonemptyString_singleton, h.noText, ite_self]
    unfold StreamPartState.updateChunks
    simp only [h.noDelta, hsnapshot, hcut.blockType, hfresh.1, if_neg hb]
  have hhandle : ({ c.runtime with out := out } : Runtime).handlePart cfg
      (.updated p part props (extractStreamMessageId part props)) =
      ((({ c.runtime with out := out } : Runtime).setPart p made.1).popPending p, made.2) := by
    simp only [Runtime.handlePart, h.announces.blockType, h.announces.role, if_true, hst₀,
      hforeign, hmade, hupdate, List.append_nil]
    rfl
  rw [hhandle] at hstates hpending hshown
  refine ⟨⟨hc.stop, ⟨made.1, ?_, hcut.blockType.trans hfresh.1, hcut.role.trans hfresh.2⟩, ?_⟩, ?_⟩
  · show rt.partStates p = some made.1
    rw [hstates]
    exact Function.update_self ..
  · show rt.pendingDeltas p = []
    rw [hpending]
    exact Function.update_self ..
  · rw [hshown, shownText_chunks (fun chunk hchunk => hfresh.2 ▸ hcut.chunks chunk hchunk),
      hcut.texts]
    exact hc.arrived

theorem Knows.delta {event part props : Mapping} {x : Text} {b : BlockType} (hc : Knows p b c)
    (h : EventOf cfg p "message.part.delta" event part props)
    (hfield : props.getStr? "field" = some "text".toList)
    (hdelta : props.getStr? "delta" = some x) :
    ∃ rt events, take cfg track c event = c.putting rt events ∧
      Knows p b (c.putting rt events) ∧ shownText events = x := by
  obtain ⟨out, rt, events, htake, hstates, hpending, hshown⟩ :=
    @take_of_part σ cfg track p c _ event part props h (.inl rfl) hc.stop
  refine ⟨rt, events, htake, ?_⟩
  rw [h.partStep_delta hfield hdelta] at hstates hpending hshown
  by_cases hx : x = []
  · subst hx
    rw [if_pos rfl] at hstates hpending hshown
    exact ⟨hc.samePart ⟨congrFun hstates p, congrFun hpending p, rfl⟩, hshown⟩
  · rw [if_neg hx] at hstates hpending hshown
    obtain ⟨st, hst, hb, hrole⟩ := hc.partState
    have hforeign : st.foreign = false := by
      unfold StreamPartState.foreign
      rw [hrole]
      rfl
    obtain ⟨hcut, -⟩ := st.cuts_deltaChunks hx (extractStreamMessageId part props)
    have hhandle : ({ c.runtime with out := out } : Runtime).handlePart cfg
        (.delta p x (extractStreamMessageId part props)) =
        (({ c.runtime with out := out } : Runtime).setPart p
          (st.deltaChunks x (extractStreamMessageId part props)).1,
          (st.deltaChunks x (extractStreamMessageId part props)).2) := by
      simp only [Runtime.handlePart, hst, hforeign]
      rfl
    rw [hhandle] at hstates hpending hshown
    refine ⟨⟨hc.stop, ⟨_, ?_, hcut.blockType.trans hb, hcut.role.trans hrole⟩, ?_⟩, ?_⟩
    · show rt.partStates p = some _
      rw [hstates]
      exact Function.update_self ..
    · show rt.pendingDeltas p = []
      rw [hpending]
      exact hc.pending
    · rw [hshown, shownText_chunks (fun chunk hchunk => hrole ▸ hcut.chunks chunk hchunk),
        hcut.texts, List.flatten_singleton]

/-! ## §5  The part's text -/

theorem shownFor_cons {event : Mapping} {rt : Runtime} {events : List Event}
    (htake : take cfg track c event = c.putting rt events)
    (h : (eventOps cfg event).any (Op.isAbout p) = true ∨ shownText events = [])
    (rest : List Mapping) :
    shownFor cfg track p c (event :: rest) =
      shownText events ++ shownFor cfg track p (c.putting rt events) rest := by
  have hdrop : (c.putting rt events).enqueued.drop c.enqueued.length = events := List.drop_left
  rw [shownFor, htake]
  simp only [hdrop]
  split
  · rfl
  · rename_i habout
    rw [h.resolve_left habout]

theorem shownFor_cons_other {event : Mapping}
    (h : ∀ o ∈ eventOps cfg event, o.isAbout p = false ∧ o.isSignal = false)
    (rest : List Mapping) :
    shownFor cfg track p c (event :: rest) =
      shownFor cfg track p (take cfg track c event) rest := by
  have habout : (eventOps cfg event).any (Op.isAbout p) = false := by
    rw [List.any_eq_false]
    intro o ho
    rw [Bool.not_eq_true]
    exact (h o ho).1
  rw [shownFor, habout]
  rfl

theorem isAbout_delta {event part props : Mapping} {x : Text}
    (h : EventOf cfg p "message.part.delta" event part props)
    (hfield : props.getStr? "field" = some "text".toList)
    (hdelta : props.getStr? "delta" = some x) (hx : x ≠ []) :
    (eventOps cfg event).any (Op.isAbout p) = true := by
  rw [h.eventOps (.inl rfl), h.partEvent?_delta hfield hdelta, List.any_append]
  simp [hx, Option.filter, Op.isAbout, PartEvent.partId]

theorem isAbout_updated {event part props : Mapping}
    (h : EventOf cfg p "message.part.updated" event part props) :
    (eventOps cfg event).any (Op.isAbout p) = true := by
  rw [h.eventOps (.inr rfl), h.partEvent?_updated, List.any_append]
  simp [Op.isAbout, PartEvent.partId]

/-- Before the part is known nothing of it is shown. -/
theorem Holds.deltas {xs : List Text} {events : List Mapping} (h : Deltas cfg p xs events)
    {arrived : Text} (hc : Holds p c arrived) (rest : List Mapping) :
    ∃ c', Holds p c' (arrived ++ xs.flatten) ∧
      shownFor cfg track p c (events ++ rest) = shownFor cfg track p c' rest := by
  induction h generalizing c arrived with
  | nil =>
      refine ⟨c, ?_, rfl⟩
      rw [List.flatten_nil, List.append_nil]
      exact hc
  | @delta event part props x xs events he hfield hdelta _ ih =>
      obtain ⟨rt, es, htake, hheld, hshown⟩ :=
        @Holds.delta σ cfg track p c event part props arrived x hc he hfield hdelta
      obtain ⟨c', hc', hrest⟩ := ih hheld
      refine ⟨c', ?_, ?_⟩
      · rw [List.flatten_cons, ← List.append_assoc]
        exact hc'
      · rw [List.cons_append, shownFor_cons htake (.inr hshown), hshown]
        exact hrest
  | other h _ ih =>
      obtain ⟨c', hc', hrest⟩ := ih (hc.samePart (take_samePart h c))
      exact ⟨c', hc', (shownFor_cons_other h _).trans hrest⟩

/-- From then on every delta is shown as it comes. -/
theorem Knows.deltas {b : BlockType} {xs : List Text} {events : List Mapping}
    (h : Deltas cfg p xs events) (hc : Knows p b c) :
    shownFor cfg track p c events = xs.flatten := by
  induction h generalizing c with
  | nil => rfl
  | @delta event part props x xs events he hfield hdelta _ ih =>
      obtain ⟨rt, es, htake, hknown, hshown⟩ :=
        @Knows.delta σ cfg track p c event part props x b hc he hfield hdelta
      have habout : (eventOps cfg event).any (Op.isAbout p) = true ∨ shownText es = [] := by
        by_cases hx : x = []
        · right
          rw [hshown, hx]
        · exact .inl (isAbout_delta he hfield hdelta hx)
      rw [shownFor_cons htake habout, hshown, ih hknown, List.flatten_cons]
  | other h _ ih =>
      rw [shownFor_cons_other h]
      exact ih (hc.samePart (take_samePart h c))

/-- Wherever the event that defines an assistant's part comes among the part's deltas,
the text shown for the part is that of all its deltas, in the order they came. -/
theorem buffered_deltas_shown {b : BlockType} (hb : b ≠ .toolCall) (hstop : c.stop = false)
    (hnew : c.runtime.partStates p = none) (hpending : c.runtime.pendingDeltas p = [])
    {xs ys : List Text} {before after : List Mapping} {defining part props : Mapping}
    (hbefore : Deltas cfg p xs before) (hdefining : Defines cfg p b defining part props)
    (hafter : Deltas cfg p ys after) :
    shownFor cfg track p c (before ++ defining :: after) = xs.flatten ++ ys.flatten := by
  have hfresh : Holds p c [] := by
    refine ⟨hstop, hnew, ?_, ?_⟩ <;> rw [hpending]
    · intro d hd
      cases hd
    · rfl
  obtain ⟨c', hc', hfirst⟩ :=
    @Holds.deltas σ cfg track p c xs before hbefore [] hfresh (defining :: after)
  obtain ⟨rt, events, htake, hknown, hshown⟩ :=
    @Holds.defined σ cfg track p c' defining part props ([] ++ xs.flatten) b hc' hb hdefining
  rw [hfirst, shownFor_cons htake (.inl (isAbout_updated hdefining.event)), hshown,
    hknown.deltas hafter]
  rfl

end Consumption

/-- The part as it comes first: its type and role, and an empty text. -/
def definingEvent : Mapping := snapshotEvent ""

theorem defining_event_between_deltas :
    Consumption.shownFor exampleConfig idleTracker "prt-1".toList
        { runtime := exampleRuntime, tracker := () }
        ([deltaEvent "Hel", otherSnapshotEvent, deltaEvent "lo"] ++
          definingEvent :: [deltaEvent " world"]) =
      ["Hel".toList, "lo".toList].flatten ++ [" world".toList].flatten := by
  have hdelta : ∀ x : String, EventOf exampleConfig "prt-1".toList "message.part.delta"
      (deltaEvent x) [] ((deltaEvent x).getMappingD "properties") :=
    fun _ => ⟨rfl, rfl, rfl, rfl, rfl⟩
  have hother : ∀ o ∈ eventOps exampleConfig otherSnapshotEvent,
      o.isAbout "prt-1".toList = false ∧ o.isSignal = false := by
    rw [eventOps_of_foreign ⟨"session-2".toList, by decide, by decide⟩]
    intro o ho
    cases ho
  have hdefining : Defines exampleConfig "prt-1".toList .text definingEvent
      ((definingEvent.getMappingD "properties").getMappingD "part")
      (definingEvent.getMappingD "properties") :=
    ⟨⟨rfl, rfl, rfl, rfl, rfl⟩, ⟨rfl, rfl⟩, rfl, rfl⟩
  refine Consumption.buffered_deltas_shown (by decide) rfl rfl rfl ?_ hdefining ?_
  · exact .delta (hdelta "Hel") rfl rfl (.other hother (.delta (hdelta "lo") rfl rfl .nil))
  · exact .delta (hdelta " world") rfl rfl .nil

end OpencodeA2a.Stream
