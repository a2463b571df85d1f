import OpencodeA2a.Library.Fold
import OpencodeA2a.Stream.Normalisation

/-!
# The consumer and the events of other sessions

`consume`, as it works through the events of its stream with the interrupt tracker
that it calls. An event that names another session leaves no trace in it.
-/

namespace OpencodeA2a.Stream

/-! ## §1  The consumer at work -/

inductive TrackerCall where
  | remember (asked : InterruptAsked)
  | discard (resolved : InterruptResolved)

def Act.call? : Act → Option TrackerCall
  | .rememberRequest a => some (.remember a)
  | .discardRequest r => some (.discard r)
  | _ => none

theorem call?_of_track {a : Act} {s : StreamOutputState} (h : (a.perform cfg s).2 = .track) :
    ∃ call, a.call? = some call := by
  cases a with
  | rememberRequest asked => exact ⟨_, rfl⟩
  | discardRequest resolved => exact ⟨_, rfl⟩
  | chunk chunk =>
      simp only [Act.perform] at h
      split at h <;> cases h
  | progress | asked | resolved => cases h

/-- What `_emit_interrupt_status` is told. -/
def Act.interrupt? : Act → Option InterruptMetadata
  | .asked a => some ⟨a.requestId, a.interruptType, .asked a.details⟩
  | .resolved r => some ⟨r.requestId, r.interruptType, .resolved r.resolution⟩
  | _ => none

/-- What `consume` has done so far. The state of the tracker is whatever its calls
work on. -/
structure Consumption (σ : Type) where
  runtime : Runtime
  tracker : σ
  /-- `terminal_signal` -/
  signal : Option TerminalSignal := none
  /-- `stop_event` -/
  stop : Bool := false
  enqueued : List Event := []
  /-- the interrupt statuses among them -/
  statuses : List InterruptMetadata := []
  /-- the calls made, also those that raised -/
  calls : List TrackerCall := []

namespace Consumption

variable {σ : Type}

section

/- `track`: what a call leaves of the tracker's state, and whether it returns. -/
variable (cfg : Config) (track : σ → TrackerCall → σ × Bool)

/-- One act, and whether its await returned. -/
def act (c : Consumption σ) (a : Act) : Consumption σ × Bool :=
  let (out, effect) := a.perform cfg c.runtime.out
  let c := { c with runtime := { c.runtime with out := out } }
  match effect, a.call? with
  | .put e, _ =>
      ({ c with enqueued := c.enqueued ++ [e], statuses := c.statuses ++ a.interrupt?.toList }, true)
  | .track, some call =>
      let (tracker, returned) := track c.tracker call
      ({ c with tracker := tracker, calls := c.calls ++ [call] }, returned)
  | _, _ => (c, true)

def acts : Consumption σ → List Act → Consumption σ × Bool
  | c, [] => (c, true)
  | c, a :: as =>
      match act cfg track c a with
      | (c', true) => acts c' as
      | (c', false) => (c', false)

def op (c : Consumption σ) : Op → Consumption σ × Bool
  | .terminalSignal s =>
      match c.signal with
      | some _ => (c, true)
      | none => ({ c with signal := some s, stop := true }, true)
  | o =>
      let (runtime, as) := o.perform cfg c.runtime
      acts cfg track { c with runtime := runtime } as

/-- An exception drops the rest of the event. -/
def ops : Consumption σ → List Op → Consumption σ × Bool
  | c, [] => (c, true)
  | c, o :: os =>
      match op cfg track c o with
      | (c', true) => ops c' os
      | (c', false) => (c', false)

/-- An event of the stream, which nobody reads any more once `stop_event` is set. -/
def take (c : Consumption σ) (event : Mapping) : Consumption σ :=
  if c.stop then c else (ops cfg track c (eventOps cfg event)).1

variable {cfg track} {c c' : Consumption σ}

theorem acts_of_returned {a : Act} {as : List Act} (h : act cfg track c a = (c', true)) :
    acts cfg track c (a :: as) = acts cfg track c' as := by
  simp only [acts, h]

theorem acts_of_raised {a : Act} {as : List Act} (h : act cfg track c a = (c', false)) :
    acts cfg track c (a :: as) = (c', false) := by
  simp only [acts, h]

theorem ops_of_returned {o : Op} {os : List Op} (h : op cfg track c o = (c', true)) :
    ops cfg track c (o :: os) = ops cfg track c' os := by
  simp only [ops, h]

theorem ops_of_raised {o : Op} {os : List Op} (h : op cfg track c o = (c', false)) :
    ops cfg track c (o :: os) = (c', false) := by
  simp only [ops, h]

/-- Every operation but the signal leaves acts behind. -/
theorem op_eq_acts {o : Op} (h : ∀ s, o ≠ .terminalSignal s) (c : Consumption σ) :
    op cfg track c o =
      acts cfg track { c with runtime := (o.perform cfg c.runtime).1 } (o.perform cfg c.runtime).2 := by
  cases o with
  | terminalSignal s => exact absurd rfl (h s)
  | progress | upstreamError | usage | asked | resolved | part => rfl

theorem take_of_stop (h : c.stop = true) (event : Mapping) : take cfg track c event = c := by
  unfold take
  rw [if_pos h]

theorem foldl_take_of_stop (h : c.stop = true) (events : List Mapping) :
    events.foldl (take cfg track) c = c := by
  induction events with
  | nil => rfl
  | cons event events ih =>
      rw [List.foldl_cons, take_of_stop h]
      exact ih

theorem take_of_running (h : c.stop = false) (event : Mapping) :
    take cfg track c event = (ops cfg track c (eventOps cfg event)).1 := by
  unfold take
  rw [h]
  rfl

end

end Consumption

/-! ## §2  The session of an event -/

/-- The session ids that an event names, in the places where it may. -/
def sessionIds (event : Mapping) : List Text :=
  let props := event.getMappingD "properties"
  [some props, props.getMapping? "info", props.getMapping? "part"].filterMap fun source =>
    source.bind fun m => extractFirstNonemptyString m ["sessionID"]

/-- One session id, wherever the event names one. -/
def BelongsTo (event : Mapping) (sessionId : Text) : Prop :=
  sessionId ∈ sessionIds event ∧ ∀ t ∈ sessionIds event, t = sessionId

instance (event : Mapping) (sessionId : Text) : Decidable (BelongsTo event sessionId) :=
  inferInstanceAs (Decidable (_ ∧ _))

theorem eq_some_of_orElse {α : Type} {o : Option α} {f : Unit → Option α} {x : α}
    (h : o.orElse f = some x) : o = some x ∨ f () = some x := by
  cases o with
  | none => exact .inr h
  | some y => exact .inl h

theorem mem_sessionIds {event props : Mapping} {t : Text}
    (hprops : event.getMapping? "properties" = some props) :
    t ∈ sessionIds event ↔
      extractFirstNonemptyString props ["sessionID"] = some t ∨
        (∃ info, props.getMapping? "info" = some info ∧
          extractFirstNonemptyString info ["sessionID"] = some t) ∨
        ∃ part, props.getMapping? "part" = some part ∧
          extractFirstNonemptyString part ["sessionID"] = some t := by
  have hD : event.getMappingD "properties" = props := by
    unfold Mapping.getMappingD
    rw [hprops]
    rfl
  unfold sessionIds
  rw [hD]
  simp only [List.mem_filterMap, List.mem_cons, List.not_mem_nil, or_false, exists_eq_or_imp,
    exists_eq_left, Option.bind_eq_some_iff, Option.some.injEq, exists_eq_left']

/-- The session that `_extract_event_session_id` finds is named in the event. -/
theorem extractEventSessionId_mem {event : Mapping} {t : Text}
    (h : extractEventSessionId event = some t) : t ∈ sessionIds event := by
  unfold extractEventSessionId at h
  obtain ⟨props, hprops, h⟩ := Option.bind_eq_some_iff.mp h
  rw [mem_sessionIds hprops]
  rcases eq_some_of_orElse h with hdirect | h
  · exact .inl hdirect
  · right
    rcases eq_some_of_orElse h with hinfo | hpart
    · exact .inl (Option.bind_eq_some_iff.mp hinfo)
    · exact .inr (Option.bind_eq_some_iff.mp hpart)

/-- So is the one that `_extract_stream_session_id` finds. -/
theorem extractStreamSessionId_mem {event props : Mapping} {t : Text}
    (hprops : event.getMapping? "properties" = some props)
    (h : extractStreamSessionId (props.getMappingD "part") props = some t) :
    t ∈ sessionIds event := by
  rw [mem_sessionIds hprops]
  unfold extractStreamSessionId at h
  rcases eq_some_of_orElse h with hpart | hdirect
  · unfold Mapping.getMappingD at hpart
    cases hp : props.getMapping? "part" with
    | none =>
        rw [hp] at hpart
        cases hpart
    | some part =>
        rw [hp] at hpart
        exact .inr (.inr ⟨part, rfl, hpart⟩)
  · exact .inl hdirect

/-- An event of another session asks for nothing. -/
theorem eventOps_of_foreign {cfg : Config} {event : Mapping}
    (h : ∃ t, t ≠ cfg.sessionId ∧ BelongsTo event t) : eventOps cfg event = [] := by
  obtain ⟨t, hne, -, hall⟩ := h
  unfold eventOps
  split
  · rename_i eventType props _ hprops
    have hsession : extractEventSessionId event ≠ some cfg.sessionId := by
      intro hcon
      exact hne (hall _ (extractEventSessionId_mem hcon)).symm
    have hstream : extractStreamSessionId (props.getMappingD "part") props ≠
        some cfg.sessionId := by
      intro hcon
      exact hne (hall _ (extractStreamSessionId_mem hprops hcon)).symm
    have hpart : partEvent? cfg eventType props = none := by
      unfold partEvent?
      simp only
      rw [if_neg hstream, ite_self]
    rw [if_neg hsession, hpart]
    rfl
  · rfl

/-! ## §3  Isolation -/

namespace Consumption

variable {σ : Type} {cfg : Config} {track : σ → TrackerCall → σ × Bool}

theorem take_of_foreign (c : Consumption σ) {event : Mapping}
    (h : ∃ t, t ≠ cfg.sessionId ∧ BelongsTo event t) : take cfg track c event = c := by
  unfold take
  rw [eventOps_of_foreign h]
  split <;> rfl

/-- Without any of the events of other sessions, the consumer of a session comes to
the same: whatever the tracker does, and also where its calls raise. -/
theorem foreign_events_invisible (c : Consumption σ) {events kept : List Mapping}
    (h : Fold.Thinned (fun event => ∃ t, t ≠ cfg.sessionId ∧ BelongsTo event t) events kept) :
    kept.foldl (take cfg track) c = events.foldl (take cfg track) c := by
  apply h.foldl_eq
  intro c event hforeign
  exact take_of_foreign c hforeign

end Consumption

/-! The events of the example: a consumer of `session-1` between two sessions. -/

/-- `session-2` names itself in the part. -/
def otherSnapshotEvent : Mapping :=
  [("type".toList, .str "message.part.updated".toList),
    ("properties".toList, .obj
      [("part".toList, .obj
        [("id".toList, .str "prt-2".toList), ("sessionID".toList, .str "session-2".toList),
          ("type".toList, .str "text".toList), ("text".toList, .str "secret".toList)])])]

def otherIdleEvent : Mapping :=
  [("type".toList, .str "session.idle".toList),
    ("properties".toList, .obj
      [("info".toList, .obj [("sessionID".toList, .str "session-2".toList)])])]

/-- The tracker keeps nothing, and its calls return. -/
def idleTracker : Unit → TrackerCall → Unit × Bool := fun _ _ => ((), true)

theorem other_session_unseen :
    [snapshotEvent "Hello"].foldl (Consumption.take exampleConfig idleTracker)
        { runtime := exampleRuntime, tracker := () } =
      [otherSnapshotEvent, snapshotEvent "Hello", otherIdleEvent].foldl
        (Consumption.take exampleConfig idleTracker)
        { runtime := exampleRuntime, tracker := () } := by
  apply Consumption.foreign_events_invisible
  exact .drop ⟨"session-2".toList, by decide, by decide⟩
    (.keep _ (.drop ⟨"session-2".toList, by decide, by decide⟩ .nil))

end OpencodeA2a.Stream
