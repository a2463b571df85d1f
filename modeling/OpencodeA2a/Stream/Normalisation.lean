import OpencodeA2a.Stream.Alignment
import OpencodeA2a.Stream.Runtime

/-!
# Normalisation of a truthful part

An upstream is truthful about a text or reasoning part when its events tell how
the part's text grows. What `consume` then emits for the part is a merger of the
reports (`Merger`), a chunk taken for the user's echo aside; so it is the part's
text, up to surrounding white space, exactly under the merger's condition.
-/

namespace OpencodeA2a.Stream

/-! ## §1  Truthful reports -/

/-- An event about a part, with what its text has grown by; `named` says that
the event names the part's role, which is the assistant's. -/
inductive Update where
  /-- `message.part.delta` -/
  | delta (x : Text)
  /-- `message.part.updated` with a delta -/
  | appended (x : Text) (named : Bool)
  /-- `message.part.updated` without one -/
  | snapshot (x : Text) (named : Bool)

namespace Update

def growth : Update → Growth Char
  | .delta x => .delta x
  | .appended x _ => .delta x
  | .snapshot x _ => .snapshot x

def added (u : Update) : Text := u.growth.added

/-- `consume` knows a part from its first `message.part.updated` on. -/
def announces : Update → Bool
  | .delta _ => false
  | _ => true

end Update

/-- The event is one of the session's part events, for the part `p`. -/
structure EventOf (cfg : Config) (p : Text) (eventType : String) (event part props : Mapping) :
    Prop where
  type : event.getStr? "type" = some eventType.toList
  properties : event.getMapping? "properties" = some props
  session : extractStreamSessionId part props = some cfg.sessionId
  id : extractStreamPartId part props = some p
  part_eq : props.getMappingD "part" = part

/-- The event says the part's type, and of its role the truth or nothing. -/
structure Announces (b : BlockType) (named : Bool) (part props : Mapping) : Prop where
  blockType : mapPartTypeToBlockType (extractStreamPartType part) = some b
  role : normalizeRole (orField (part.get? "role") (props.get? "role")) =
    if named then some .agent else none

/-- The event reports the update of the part whose text is `text`. -/
inductive Reports (cfg : Config) (p : Text) (b : BlockType) (text : Text) :
    Update → Mapping → Prop
  | delta {event part props : Mapping} {x : Text}
      (h : EventOf cfg p "message.part.delta" event part props)
      (hfield : props.getStr? "field" = some "text".toList)
      (hdelta : props.getStr? "delta" = some x) : Reports cfg p b text (.delta x) event
  | appended {event part props : Mapping} {x : Text} {named : Bool}
      (h : EventOf cfg p "message.part.updated" event part props)
      (ha : Announces b named part props)
      (hdelta : props.getStr? "delta" = some x) (hx : x ≠ []) :
      Reports cfg p b text (.appended x named) event
  | snapshot {event part props : Mapping} {x : Text} {named : Bool}
      (h : EventOf cfg p "message.part.updated" event part props)
      (ha : Announces b named part props)
      (hdelta : (props.getStr? "delta").filter (· ≠ []) = none)
      (htext : part.getStr? "text" = some (text ++ x)) :
      Reports cfg p b text (.snapshot x named) event

/-- The events report the updates one after the other, from the text on. -/
inductive Truthful (cfg : Config) (p : Text) (b : BlockType) :
    Text → List Update → List Mapping → Prop
  | nil (text : Text) : Truthful cfg p b text [] []
  | cons {text : Text} {u : Update} {us : List Update} {event : Mapping} {events : List Mapping}
      (h : Reports cfg p b text u event) (hrest : Truthful cfg p b (text ++ u.added) us events) :
      Truthful cfg p b text (u :: us) (event :: events)

/-- The text a client is shown by the artifact updates among the events. -/
def shownText : List Event → Text
  | [] => []
  | .artifact u :: events => u.part.textD ++ shownText events
  | _ :: events => shownText events

@[simp] theorem shownText_append (l m : List Event) :
    shownText (l ++ m) = shownText l ++ shownText m := by
  induction l with
  | nil => rfl
  | cons e l ih => cases e <;> simp [shownText, ih]

/-! ## §2  The pieces of text a part is cut into -/

/-- A chunk of text of a part, to be appended. -/
structure NormalizedStreamChunk.IsText (b : BlockType) (role : Option Role)
    (c : NormalizedStreamChunk) : Prop where
  part : c.part = .text c.contentKey
  nonempty : c.contentKey ≠ []
  append : c.append = true
  accumulate : c.accumulateContent = true
  blockType : c.blockType = b
  role : c.role = role

def pieces (cs : List NormalizedStreamChunk) : List Text := cs.map NormalizedStreamChunk.contentKey

namespace StreamPartState

/-- The part went from `st` to `st'` and was cut into the chunks `cs`. -/
structure Cuts (st st' : StreamPartState) (cs : List NormalizedStreamChunk) (texts : List Text) :
    Prop where
  blockType : st'.blockType = st.blockType
  role : st'.role = st.role
  texts : pieces cs = texts
  chunks : ∀ c ∈ cs, c.IsText st.blockType st.role

variable {st st' st'' : StreamPartState} {cs cs' : List NormalizedStreamChunk}
  {ts ts' : List Text}

theorem Cuts.silent (hb : st'.blockType = st.blockType) (hr : st'.role = st.role) :
    Cuts st st' [] [] :=
  ⟨hb, hr, rfl, fun _ h => by cases h⟩

theorem Cuts.text (hb : st'.blockType = st.blockType) (hr : st'.role = st.role) {t : Text}
    (ht : t ≠ []) : Cuts st st' [st'.newTextChunk t] [t] := by
  refine ⟨hb, hr, rfl, ?_⟩
  intro c hc
  obtain rfl := List.mem_singleton.mp hc
  exact ⟨rfl, ht, rfl, rfl, hb, hr⟩

theorem Cuts.trans (h : Cuts st st' cs ts) (h' : Cuts st' st'' cs' ts') :
    Cuts st st'' (cs ++ cs') (ts ++ ts') := by
  refine ⟨h'.blockType.trans h.blockType, h'.role.trans h.role, ?_, ?_⟩
  · unfold pieces
    rw [List.map_append, ← h.texts, ← h'.texts]
    rfl
  · intro c hc
    rcases List.mem_append.mp hc with hc | hc
    · exact h.chunks c hc
    · have := h'.chunks c hc
      rwa [h.blockType, h.role] at this

theorem cuts_deltaChunks (st : StreamPartState) {x : Text} (hx : x ≠ []) (mid : Option Text) :
    Cuts st (st.deltaChunks x mid).1 (st.deltaChunks x mid).2 [x] ∧
      (st.deltaChunks x mid).1.buffer = st.buffer ++ x := by
  unfold deltaChunks
  rw [if_neg hx]
  refine ⟨Cuts.text ?_ ?_ hx, rfl⟩ <;> rfl

/-- A snapshot shows what it adds to the buffer. -/
theorem cuts_snapshotChunks (st : StreamPartState) (snapshot : Text) (mid : Option Text) :
    ∃ ts, Cuts st (st.snapshotChunks snapshot mid).1 (st.snapshotChunks snapshot mid).2 ts ∧
      (st.snapshotChunks snapshot mid).1.buffer = snapshot ∧
      ts = if st.buffer <+: snapshot ∧ snapshot ≠ st.buffer then
        [snapshot.drop st.buffer.length] else [] := by
  unfold snapshotChunks
  by_cases heq : snapshot = st.buffer
  · rw [if_pos heq]
    exact ⟨[], Cuts.silent rfl rfl, heq.symm, (if_neg fun h => h.2 heq).symm⟩
  · rw [if_neg heq]
    by_cases hpre : st.buffer <+: snapshot
    · have hne : snapshot.drop st.buffer.length ≠ [] := by
        obtain ⟨t, rfl⟩ := hpre
        rw [List.drop_left]
        rintro rfl
        exact heq (List.append_nil _)
      simp only [if_pos hpre, if_neg hne]
      refine ⟨_, Cuts.text ?_ ?_ hne, trivial, (if_pos ⟨hpre, heq⟩).symm⟩ <;> rfl
    · simp only [if_neg hpre]
      exact ⟨[], Cuts.silent rfl rfl, trivial, (if_neg fun h => hpre h.1).symm⟩

/-- Buffered deltas of text, none of them empty. -/
def Held (ds : List PendingDelta) : Prop := ∀ d ∈ ds, d.field = "text".toList ∧ d.delta ≠ []

theorem cuts_pendingChunks (st : StreamPartState) {ds : List PendingDelta} (h : Held ds) :
    Cuts st (st.pendingChunks ds).1 (st.pendingChunks ds).2 (ds.map PendingDelta.delta) ∧
      (st.pendingChunks ds).1.buffer = st.buffer ++ (ds.map PendingDelta.delta).flatten := by
  induction ds generalizing st with
  | nil => exact ⟨Cuts.silent rfl rfl, by simp [pendingChunks]⟩
  | cons d ds ih =>
      obtain ⟨hfield, hdelta⟩ := h d (List.mem_cons_self ..)
      obtain ⟨hcut, hbuf⟩ := cuts_deltaChunks st hdelta d.messageId
      obtain ⟨hcut', hbuf'⟩ := ih (st.deltaChunks d.delta d.messageId).1
        (fun d' hd' => h d' (List.mem_cons_of_mem d hd'))
      simp only [pendingChunks, hfield, if_true]
      refine ⟨hcut.trans hcut', ?_⟩
      rw [hbuf', hbuf, List.map_cons, List.flatten_cons, List.append_assoc]

end StreamPartState

/-! ## §3  One event -/

/-- The part event of an upstream event, handled. -/
def partStep (cfg : Config) (rt : Runtime) (event : Mapping) :
    Runtime × List NormalizedStreamChunk :=
  match event.getStr? "type", event.getMapping? "properties" with
  | some eventType, some props =>
      match partEvent? cfg eventType props with
      | some e => rt.handlePart cfg e
      | none => (rt, [])
  | _, _ => (rt, [])

/-- The piece of text that the part's first chunk carries and the role it
carries it with: the first delta, where the part is not announced before, or
what the first update shows. -/
def firstPiece (known : Bool) (held : Option Text) (role : Option Role) (text : Text) :
    List Update → Option (Text × Option Role)
  | [] => none
  | .delta x :: us =>
      if x = [] then firstPiece known held role text us
      else if known then some (x, role)
      else firstPiece known (held.orElse fun _ => some x) role (text ++ x) us
  | .appended x named :: _ => some (held.getD x, if named then some .agent else role)
  | .snapshot x named :: us =>
      match held.orElse fun _ => nonempty? (text ++ x) with
      | some t => some (t, if named then some .agent else role)
      | none => firstPiece true none (if named then some .agent else role) (text ++ x) us

/-- Where `consume` stands with the part `p`, next to the merger of its reports:
before it knows the part it has made no chunk of it, from then on it has made
the chunks `made` of what the merger has shown. -/
inductive Tracks (p : Text) (b : BlockType) (rt : Runtime) (m : Merger Char) :
    Bool → Option Text → Option Role → Text → Prop
  | held {ds : List PendingDelta} (hnew : rt.partStates p = none) (hpend : rt.pendingDeltas p = ds)
      (hds : StreamPartState.Held ds) (hbuf : m.buffer = (ds.map PendingDelta.delta).flatten)
      (hshown : m.shown = (ds.map PendingDelta.delta).flatten) :
      Tracks p b rt m false (ds.map PendingDelta.delta).head? none []
  | known {st : StreamPartState} (hst : rt.partStates p = some st) (hpend : rt.pendingDeltas p = [])
      (hb : st.blockType = b) (hforeign : st.foreign = false) (hbuf : st.buffer = m.buffer) :
      Tracks p b rt m true none st.role m.shown

variable {cfg : Config} {p : Text} {b : BlockType} {rt : Runtime} {m : Merger Char}
  {event part props : Mapping}

theorem EventOf.partEvent?_delta (h : EventOf cfg p "message.part.delta" event part props)
    (hfield : props.getStr? "field" = some "text".toList) {x : Text}
    (hdelta : props.getStr? "delta" = some x) :
    partEvent? cfg "message.part.delta".toList props = ((some x).filter (· ≠ [])).map fun x =>
      .delta p x (extractStreamMessageId part props) := by
  unfold partEvent?
  simp only [h.part_eq, h.session, h.id, hfield, hdelta]
  simp

theorem EventOf.partEvent?_updated (h : EventOf cfg p "message.part.updated" event part props) :
    partEvent? cfg "message.part.updated".toList props =
      some (.updated p part props (extractStreamMessageId part props)) := by
  unfold partEvent?
  simp only [h.part_eq, h.session, h.id]
  simp

theorem EventOf.partStep_delta (h : EventOf cfg p "message.part.delta" event part props)
    (hfield : props.getStr? "field" = some "text".toList) {x : Text}
    (hdelta : props.getStr? "delta" = some x) (rt : Runtime) :
    partStep cfg rt event = if x = [] then (rt, []) else
      rt.handlePart cfg (.delta p x (extractStreamMessageId part props)) := by
  unfold partStep
  rw [h.type, h.properties]
  simp only [h.partEvent?_delta hfield hdelta]
  by_cases hx : x = [] <;> simp [hx, Option.filter]

theorem EventOf.partStep_updated (h : EventOf cfg p "message.part.updated" event part props)
    (rt : Runtime) :
    partStep cfg rt event =
      rt.handlePart cfg (.updated p part props (extractStreamMessageId part props)) := by
  unfold partStep
  rw [h.type, h.properties]
  simp only [h.partEvent?_updated]

/-- What handling an event of the part leaves: the merger has taken the report,
the chunks made carry the part's role, and the first of them all is the first
piece of the reports. -/
def Follows (cfg : Config) (p : Text) (b : BlockType) (rt : Runtime) (m : Merger Char) (u : Update)
    (event : Mapping) (known : Bool) (held : Option Text) (role : Option Role) (made : Text) :
    Prop :=
  ∃ rt' cs held' role', partStep cfg rt event = (rt', cs) ∧
    Tracks p b rt' (m.next isSpace u.growth) (known || u.announces) held' role'
      (made ++ (pieces cs).flatten) ∧
    (∀ c ∈ cs, c.IsText b role') ∧
    (made = [] → ∀ us, firstPiece known held role m.text (u :: us) =
      match (pieces cs).head? with
      | some t => some (t, role')
      | none => firstPiece (known || u.announces) held' role' (m.text ++ u.added) us)

theorem Merger.next_delta_nil (m : Merger Char) : m.next isSpace (.delta []) = m := by
  simp only [Merger.next, List.append_nil]

theorem Tracks.delta {known : Bool} {held : Option Text} {role : Option Role} {made x : Text}
    (h : Tracks p b rt m known held role made)
    (he : EventOf cfg p "message.part.delta" event part props)
    (hfield : props.getStr? "field" = some "text".toList)
    (hdelta : props.getStr? "delta" = some x) :
    Follows cfg p b rt m (.delta x) event known held role made := by
  have hstep := he.partStep_delta hfield hdelta rt
  by_cases hx : x = []
  · subst hx
    rw [if_pos rfl] at hstep
    refine ⟨rt, [], held, role, hstep, ?_, (fun c hc => by cases hc), ?_⟩
    · show Tracks p b rt (m.next isSpace (.delta [])) (known || false) held role (made ++ [])
      rw [Merger.next_delta_nil, Bool.or_false, List.append_nil]
      exact h
    · intro _ us
      show firstPiece known held role m.text (.delta [] :: us) =
        firstPiece (known || false) held role (m.text ++ []) us
      rw [Bool.or_false, List.append_nil]
      simp [firstPiece]
  · rw [if_neg hx] at hstep
    cases h with
    | @held ds hnew hpend hds hbuf hshown =>
        subst hpend
        generalize hd : (⟨"text".toList, x, extractStreamMessageId part props⟩ : PendingDelta) = d
        have hdx : d.field = "text".toList ∧ d.delta = x := by rw [← hd]; exact ⟨rfl, rfl⟩
        have hhandle : rt.handlePart cfg (.delta p x (extractStreamMessageId part props)) =
            (rt.pushPending p d, []) := by
          simp only [Runtime.handlePart, hnew, hd]
        rw [hhandle] at hstep
        have htracks : Tracks p b (rt.pushPending p d) (m.next isSpace (.delta x)) false
            ((rt.pendingDeltas p ++ [d]).map PendingDelta.delta).head? none [] := by
          refine .held hnew (Function.update_self ..) ?_ ?_ ?_
          · intro d' hd'
            rcases List.mem_append.mp hd' with hd' | hd'
            · exact hds d' hd'
            · obtain rfl := List.mem_singleton.mp hd'
              exact ⟨hdx.1, fun h => hx (hdx.2.symm.trans h)⟩
          · simp [Merger.next, hbuf, hdx.2]
          · simp [Merger.next, hshown, hdx.2]
        have hhead : ((rt.pendingDeltas p ++ [d]).map PendingDelta.delta).head? =
            ((rt.pendingDeltas p).map PendingDelta.delta).head?.orElse fun _ => some x := by
          rw [← hdx.2]
          cases rt.pendingDeltas p <;> rfl
        refine ⟨_, [], _, none, hstep, htracks, (fun c hc => by cases hc), ?_⟩
        intro _ us
        rw [hhead]
        simp [firstPiece, hx, pieces, Update.announces, Update.added, Update.growth, Growth.added]
    | @known st hst hpend hb hforeign hbuf =>
        obtain ⟨hcut, hbuf'⟩ := st.cuts_deltaChunks hx (extractStreamMessageId part props)
        have hhandle : rt.handlePart cfg (.delta p x (extractStreamMessageId part props)) =
            (rt.setPart p (st.deltaChunks x (extractStreamMessageId part props)).1,
              (st.deltaChunks x (extractStreamMessageId part props)).2) := by
          simp only [Runtime.handlePart, hst, hforeign]
          rfl
        rw [hhandle] at hstep
        refine ⟨_, _, none, st.role, hstep, ?_, ?_, ?_⟩
        · have hslot : (rt.setPart p (st.deltaChunks x
              (extractStreamMessageId part props)).1).partStates p = some _ := Function.update_self ..
          have hknown := Tracks.known (p := p) (b := b) (m := m.next isSpace (.delta x)) hslot hpend
            (hcut.blockType.trans hb) ?_ ?_
          · rw [hcut.role] at hknown
            rw [hcut.texts]
            simpa [Update.growth, Update.announces, Merger.next] using hknown
          · unfold StreamPartState.foreign
            rw [hcut.role]
            exact hforeign
          · rw [hbuf', hbuf]
            rfl
        · intro c hc
          have := hcut.chunks c hc
          rwa [hb] at this
        · intro _ us
          rw [hcut.texts]
          simp [firstPiece, hx]

/-- The role of a part after an update. -/
def roleAfter (named : Bool) (role : Option Role) : Option Role :=
  if named then some .agent else role

/-- An update first makes the chunks of the deltas held back. -/
theorem Tracks.flush (cfg : Config) {known : Bool} (named : Bool) {held : Option Text}
    {role : Option Role} {made : Text} (h : Tracks p b rt m known held role made) (mid : Option Text) :
    ∃ st₀ ds, upsertPartState cfg rt.partStates p b (if named then some .agent else none) mid = st₀ ∧
      st₀.foreign = false ∧ st₀.blockType = b ∧ st₀.role = roleAfter named role ∧
      rt.pendingDeltas p = ds ∧ StreamPartState.Held ds ∧
      st₀.buffer ++ (ds.map PendingDelta.delta).flatten = m.buffer ∧
      made ++ (ds.map PendingDelta.delta).flatten = m.shown ∧
      held = (ds.map PendingDelta.delta).head? := by
  cases h with
  | @held ds hnew hpend hds hbuf hshown =>
      refine ⟨_, ds, rfl, ?_, ?_, ?_, hpend, hds, ?_, hshown.symm, rfl⟩
      · cases named <;> simp [upsertPartState, hnew, StreamPartState.foreign]
      · simp [upsertPartState, hnew]
      · simp [upsertPartState, hnew, roleAfter]
      · simp [upsertPartState, hnew, hbuf]
  | @known st hst hpend hb hforeign hbuf =>
      refine ⟨_, [], rfl, ?_, ?_, ?_, hpend, (fun d hd => by cases hd), ?_, ?_, rfl⟩
      · cases named
        · simpa [upsertPartState, hst, StreamPartState.foreign] using hforeign
        · simp [upsertPartState, hst, StreamPartState.foreign]
      · simp [upsertPartState, hst]
      · cases named <;> simp [upsertPartState, hst, roleAfter]
      · simp [upsertPartState, hst, hbuf]
      · simp

/-- What an update shows, once the held deltas are out of the way. -/
structure Shows (st st' : StreamPartState) (cs : List NormalizedStreamChunk) (m m' : Merger Char)
    (ts : List Text) : Prop where
  cuts : st.Cuts st' cs ts
  buffer : st'.buffer = m'.buffer
  shown : m.shown ++ ts.flatten = m'.shown

theorem shows_appended {st : StreamPartState} (hbuf : st.buffer = m.buffer) {x : Text}
    (hx : x ≠ []) (hdelta : props.getStr? "delta" = some x) (mid : Option Text) :
    Shows st (st.updateChunks cfg part props mid).1 (st.updateChunks cfg part props mid).2 m
      (m.next isSpace (.delta x)) [x] := by
  have hchunks : st.updateChunks cfg part props mid = st.deltaChunks x mid := by
    unfold StreamPartState.updateChunks
    simp [hdelta, Option.filter, hx]
  obtain ⟨hcut, hbuf'⟩ := st.cuts_deltaChunks hx mid
  rw [hchunks]
  refine ⟨hcut, ?_, by simp [Merger.next]⟩
  rw [hbuf', hbuf]
  rfl

theorem extractStreamSnapshotText_of_announces {named : Bool} (ha : Announces b named part props)
    (hb : b ≠ .toolCall) {t : Text} (htext : part.getStr? "text" = some t) :
    extractStreamSnapshotText part = nonempty? t := by
  have htype : extractStreamPartType part = some "text".toList ∨
      extractStreamPartType part = some "reasoning".toList := by
    have := ha.blockType
    unfold mapPartTypeToBlockType at this
    split_ifs at this with h₁ h₂ h₃
    · exact .inl h₁
    · exact .inr h₂
    · exact absurd (Option.some.inj this).symm hb
  unfold extractStreamSnapshotText
  rw [if_pos htype, extractFirstNonemptyString_singleton]
  unfold extractOptionalString
  rw [htext]
  rfl

/-- What a snapshot adds to the merger's buffer. -/
def Merger.ownPieces (m : Merger Char) (x : Text) : List Text :=
  match nonempty? (m.text ++ x) with
  | some snapshot =>
      if m.buffer <+: snapshot ∧ snapshot ≠ m.buffer then [snapshot.drop m.buffer.length] else []
  | none => []

theorem Merger.head?_ownPieces (hempty : m.buffer = []) (x : Text) :
    (m.ownPieces x).head? = nonempty? (m.text ++ x) := by
  unfold Merger.ownPieces
  cases hne : nonempty? (m.text ++ x) with
  | none => rfl
  | some snapshot =>
      obtain ⟨rfl, hblank⟩ := nonempty?_eq_some hne
      have hnil : Text.strip (m.text ++ x) ≠ [] := fun h => hblank (Text.blank_iff.mpr h)
      simp only [hempty]
      rw [if_pos ⟨List.nil_prefix, hnil⟩]
      rfl

theorem shows_snapshot {st : StreamPartState} (hbuf : st.buffer = m.buffer) (hst : st.blockType = b)
    {named : Bool} (ha : Announces b named part props) (hb : b ≠ .toolCall) {x : Text}
    (hdelta : (props.getStr? "delta").filter (· ≠ []) = none)
    (htext : part.getStr? "text" = some (m.text ++ x)) (mid : Option Text) :
    Shows st (st.updateChunks cfg part props mid).1 (st.updateChunks cfg part props mid).2 m
      (m.next isSpace (.snapshot x)) (m.ownPieces x) := by
  have hsnap := extractStreamSnapshotText_of_announces ha hb htext
  have hchunks : st.updateChunks cfg part props mid =
      match nonempty? (m.text ++ x) with
      | some snapshot => st.snapshotChunks snapshot mid
      | none => (st, []) := by
    unfold StreamPartState.updateChunks
    simp only [hdelta, hst, hsnap]
    exact if_neg hb
  unfold Merger.ownPieces
  rw [hchunks]
  cases hne : nonempty? (m.text ++ x) with
  | none =>
      have hnil : Strip.strip isSpace (m.text ++ x) = [] :=
        Text.blank_iff.mp (nonempty?_eq_none.mp hne)
      have hnext : m.next isSpace (.snapshot x) = ⟨m.buffer, m.shown, m.text ++ x⟩ := by
        simp only [Merger.next]
        rw [if_pos hnil]
      rw [hnext]
      exact ⟨StreamPartState.Cuts.silent rfl rfl, hbuf, by simp⟩
  | some snapshot =>
      obtain ⟨rfl, hblank⟩ := nonempty?_eq_some hne
      have hnil : Strip.strip isSpace (m.text ++ x) ≠ [] := fun h => hblank (Text.blank_iff.mpr h)
      obtain ⟨ts, hcut, hbuf', hts⟩ := st.cuts_snapshotChunks (Text.strip (m.text ++ x)) mid
      rw [hbuf] at hts
      subst hts
      refine ⟨hcut, ?_, ?_⟩
      · rw [hbuf']
        simp only [Merger.next]
        rw [if_neg hnil]
        split_ifs <;> rfl
      · simp only [Merger.next]
        rw [if_neg hnil]
        by_cases hpre : m.buffer <+: Strip.strip isSpace (m.text ++ x)
        · rw [if_pos hpre]
          by_cases heq : Text.strip (m.text ++ x) = m.buffer
          · rw [if_neg (fun h => h.2 heq)]
            show m.shown ++ [].flatten = m.shown ++ (Text.strip (m.text ++ x)).drop m.buffer.length
            rw [heq]
            simp
          · rw [if_pos ⟨hpre, heq⟩]
            simp [Text.strip]
        · rw [if_neg hpre, if_neg (fun h => hpre h.1)]
          simp

/-- The chunks of an update: the held deltas', then what it shows itself. -/
theorem Tracks.updated {known named : Bool} {held : Option Text} {role : Option Role}
    {made : Text} (h : Tracks p b rt m known held role made)
    (he : EventOf cfg p "message.part.updated" event part props)
    (ha : Announces b named part props) {m' : Merger Char} {own : List Text}
    (hshows : ∀ st : StreamPartState, st.buffer = m.buffer → st.blockType = b →
      Shows st (st.updateChunks cfg part props (extractStreamMessageId part props)).1
        (st.updateChunks cfg part props (extractStreamMessageId part props)).2 m m' own) :
    ∃ rt' cs, partStep cfg rt event = (rt', cs) ∧
      Tracks p b rt' m' true none (roleAfter named role) (made ++ (pieces cs).flatten) ∧
      (∀ c ∈ cs, c.IsText b (roleAfter named role)) ∧
      (pieces cs).head? = held.orElse fun _ => own.head? := by
  obtain ⟨st₀, ds, hst, hforeign, hblock, hrole, hpend, hds, hbuf, hmade, rfl⟩ :=
    h.flush cfg named (extractStreamMessageId part props)
  obtain ⟨hcut, hbuf₁⟩ := st₀.cuts_pendingChunks hds
  have hs := hshows (st₀.pendingChunks ds).1 (hbuf₁.trans hbuf) (hcut.blockType.trans hblock)
  have hall := hcut.trans hs.cuts
  have hhandle : rt.handlePart cfg (.updated p part props (extractStreamMessageId part props)) =
      ((rt.setPart p ((st₀.pendingChunks ds).1.updateChunks cfg part props
          (extractStreamMessageId part props)).1).popPending p,
        (st₀.pendingChunks ds).2 ++ ((st₀.pendingChunks ds).1.updateChunks cfg part props
          (extractStreamMessageId part props)).2) := by
    simp only [Runtime.handlePart, ha.blockType, ha.role, hst, hforeign, hpend]
    rfl
  refine ⟨_, _, (he.partStep_updated rt).trans hhandle, ?_, ?_, ?_⟩
  · have hslot : ((rt.setPart p ((st₀.pendingChunks ds).1.updateChunks cfg part props
        (extractStreamMessageId part props)).1).popPending p).partStates p = some _ :=
      Function.update_self ..
    have hknown := Tracks.known (p := p) (b := b) (m := m') hslot (Function.update_self ..)
      (hall.blockType.trans hblock) ?_ hs.buffer
    · rw [hall.role, hrole] at hknown
      rw [hall.texts, List.flatten_append, ← List.append_assoc, hmade, hs.shown]
      exact hknown
    · unfold StreamPartState.foreign at hforeign ⊢
      rw [hall.role]
      exact hforeign
  · intro c hc
    have := hall.chunks c hc
    rwa [hblock, hrole] at this
  · rw [hall.texts]
    cases ds <;> simp

/-- One event: the merger takes the report. -/
theorem Tracks.follows {known : Bool} {held : Option Text} {role : Option Role} {made : Text}
    (h : Tracks p b rt m known held role made) (hb : b ≠ .toolCall)
    (hempty : m.shown = [] → m.buffer = []) {u : Update} (hr : Reports cfg p b m.text u event) :
    Follows cfg p b rt m u event known held role made := by
  cases hr with
  | delta he hfield hdelta => exact h.delta he hfield hdelta
  | @appended event part props x named he ha hdelta hx =>
      obtain ⟨rt', cs, hstep, htracks, hchunks, hhead⟩ := h.updated he ha
        (fun st hbuf _ => shows_appended hbuf hx hdelta _)
      have hann : (known || (Update.appended x named).announces) = true := Bool.or_true known
      refine ⟨rt', cs, none, roleAfter named role, hstep, ?_, hchunks, ?_⟩
      · rw [hann]
        exact htracks
      · intro _ us
        rw [hhead]
        cases held <;> rfl
  | @snapshot event part props x named he ha hdelta htext =>
      obtain ⟨rt', cs, hstep, htracks, hchunks, hhead⟩ := h.updated he ha
        (fun st hbuf hst => shows_snapshot hbuf hst ha hb hdelta htext _)
      have hann : (known || (Update.snapshot x named).announces) = true := Bool.or_true known
      refine ⟨rt', cs, none, roleAfter named role, hstep, ?_, hchunks, ?_⟩
      · rw [hann]
        exact htracks
      · intro hmade us
        have hown : held = none → (m.ownPieces x).head? = nonempty? (m.text ++ x) := by
          intro hnone
          refine Merger.head?_ownPieces (hempty ?_) x
          cases h with
          | @held ds hnew hpend hds hbuf hshown =>
              have : ds = [] := by simpa using hnone
              rw [hshown, this]
              rfl
          | known hst hpend hb' hforeign hbuf => exact hmade
        rw [hhead, hann]
        cases held with
        | some t => rfl
        | none =>
            rw [hown rfl]
            simp only [firstPiece, Option.orElse]
            cases nonempty? (m.text ++ x) <;> rfl

/-! ## §4  What the client hears of the chunks -/

namespace StreamOutputState

variable {s s' : StreamOutputState}

theorem shouldDropInitialUserEcho_congr (hsaw : s'.sawAnyChunk = s.sawAnyChunk)
    (huser : s'.userText = s.userText) (t : Text) (b : BlockType) (role : Option Role) :
    s'.shouldDropInitialUserEcho t b role = s.shouldDropInitialUserEcho t b role := by
  unfold shouldDropInitialUserEcho
  rw [hsaw, huser]

theorem shouldDropInitialUserEcho_of_saw (h : s.sawAnyChunk = true) (t : Text) (b : BlockType)
    (role : Option Role) : s.shouldDropInitialUserEcho t b role = false := by
  unfold shouldDropInitialUserEcho
  simp [h]

/-- What is taken for an echo is not blank. -/
theorem not_blank_of_drop {t : Text} {b : BlockType} {role : Option Role}
    (h : s.shouldDropInitialUserEcho t b role = true) : ¬ t.Blank := by
  unfold shouldDropInitialUserEcho at h
  split_ifs at h
  simp only [Bool.and_eq_true, decide_eq_true_eq, beq_iff_eq] at h
  rw [Text.blank_iff, h.2]
  exact h.1

end StreamOutputState

/-- A text chunk is taken for the user's echo, or shown. -/
theorem emitChunk_isText (cfg : Config) (s : StreamOutputState) {c : NormalizedStreamChunk}
    {role : Option Role} (hc : c.IsText b role) :
    (s.shouldDropInitialUserEcho c.contentKey b role = true ∧ emitChunk cfg s c = (s, none)) ∨
    (s.shouldDropInitialUserEcho c.contentKey b role = false ∧
      ∃ s' u, emitChunk cfg s c = (s', some u) ∧ u.part = c.part ∧ s'.sawAnyChunk = true) := by
  have htext : c.part.textD = c.contentKey := by rw [hc.part]; rfl
  unfold emitChunk
  rw [htext, hc.blockType, hc.role]
  cases hdrop : s.shouldDropInitialUserEcho c.contentKey b role with
  | true => exact .inl ⟨rfl, rfl⟩
  | false =>
      refine .inr ⟨rfl, ?_⟩
      rw [hc.append, hc.accumulate]
      obtain ⟨⟨s₁, e⟩, hreg⟩ := Option.isSome_iff_exists.mp
        (s.registerChunk_isSome c.artifactId hc.nonempty)
      obtain ⟨-, -, -, hsaw, -⟩ := StreamOutputState.registerChunk_eq_some hreg
      simp only [hreg]
      refine ⟨_, _, rfl, rfl, ?_⟩
      split_ifs
      · unfold StreamOutputState.nextSequence StreamOutputState.rememberTextArtifactId
        split <;> exact hsaw
      · exact hsaw

/-- What the client was shown of the chunks made so far, the first of which
carried `first`: nothing yet, all, or less. -/
inductive Hearing (s₀ : StreamOutputState) (b : BlockType) (s : StreamOutputState) :
    Text → Text → Option (Text × Option Role) → Prop
  | silent (hsaw : s.sawAnyChunk = s₀.sawAnyChunk) (huser : s.userText = s₀.userText) :
      Hearing s₀ b s [] [] none
  | heard {made t : Text} {role : Option Role} (hsaw : s.sawAnyChunk = true)
      (hdrop : s₀.shouldDropInitialUserEcho t b role = false) (hmade : made ≠ []) :
      Hearing s₀ b s made made (some (t, role))
  | missed {shown made t : Text} {role : Option Role}
      (hdrop : s₀.shouldDropInitialUserEcho t b role = true)
      (hless : (Strip.solid isSpace shown).length < (Strip.solid isSpace made).length) :
      Hearing s₀ b s shown made (some (t, role))

theorem Hearing.chunk (cfg : Config) {s₀ s : StreamOutputState} {shown made : Text}
    {first : Option (Text × Option Role)} (h : Hearing s₀ b s shown made first)
    {c : NormalizedStreamChunk} {role : Option Role} (hc : c.IsText b role) :
    Hearing s₀ b (performActs cfg s [.chunk c]).1
      (shown ++ shownText (performActs cfg s [.chunk c]).2) (made ++ c.contentKey)
      (first.orElse fun _ => some (c.contentKey, role)) := by
  have htext : c.part.textD = c.contentKey := by rw [hc.part]; rfl
  rcases emitChunk_isText cfg s hc with ⟨hdrop, hemit⟩ | ⟨hdrop, s', u, hemit, hu, hsaw⟩
  · have hperform : performActs cfg s [.chunk c] = (s, []) := by
      simp only [performActs, Act.perform, hemit]
    rw [hperform]
    have hsolid : 0 < (Strip.solid isSpace c.contentKey).length := by
      rw [List.length_pos_iff]
      exact fun hnil => StreamOutputState.not_blank_of_drop hdrop (Strip.blank_iff_solid.mpr hnil)
    cases h with
    | silent hsaw huser =>
        rw [StreamOutputState.shouldDropInitialUserEcho_congr hsaw huser] at hdrop
        exact .missed hdrop hsolid
    | heard hsaw _ _ =>
        rw [StreamOutputState.shouldDropInitialUserEcho_of_saw hsaw] at hdrop
        cases hdrop
    | missed hdrop' hless =>
        refine .missed hdrop' ?_
        simp only [shownText, List.append_nil, Strip.solid_append, List.length_append]
        omega
  · have hperform : performActs cfg s [.chunk c] = (s', [.artifact u]) := by
      simp only [performActs, Act.perform, hemit]
    have hshown : shownText [.artifact u] = c.contentKey := by
      simp only [shownText, List.append_nil, hu, htext]
    rw [hperform, hshown]
    cases h with
    | silent hsaw' huser =>
        rw [StreamOutputState.shouldDropInitialUserEcho_congr hsaw' huser] at hdrop
        exact .heard hsaw hdrop hc.nonempty
    | heard _ hdrop' hmade =>
        refine .heard hsaw hdrop' ?_
        intro hnil
        exact hmade (List.append_eq_nil_iff.mp hnil).1
    | missed hdrop' hless =>
        refine .missed hdrop' ?_
        simp only [Strip.solid_append, List.length_append]
        omega

theorem performActs_cons (cfg : Config) (s : StreamOutputState) (act : Act) (acts : List Act) :
    performActs cfg s (act :: acts) =
      ((performActs cfg (performActs cfg s [act]).1 acts).1,
        (performActs cfg s [act]).2 ++ (performActs cfg (performActs cfg s [act]).1 acts).2) := by
  simp only [performActs]
  cases (Act.perform cfg s act).2 <;> rfl

theorem Hearing.chunks (cfg : Config) {s₀ s : StreamOutputState} {shown made : Text}
    {first : Option (Text × Option Role)} (h : Hearing s₀ b s shown made first)
    {cs : List NormalizedStreamChunk} {role : Option Role} (hcs : ∀ c ∈ cs, c.IsText b role) :
    Hearing s₀ b (performActs cfg s (cs.map Act.chunk)).1
      (shown ++ shownText (performActs cfg s (cs.map Act.chunk)).2) (made ++ (pieces cs).flatten)
      (first.orElse fun _ => (pieces cs).head?.map fun t => (t, role)) := by
  induction cs generalizing s shown made first with
  | nil =>
      simp only [List.map_nil, performActs, shownText, pieces, List.flatten_nil, List.append_nil]
      cases first <;> exact h
  | cons c cs ih =>
      have hstep := h.chunk cfg (hcs c (List.mem_cons_self ..))
      have hrest := ih hstep fun c' hc' => hcs c' (List.mem_cons_of_mem c hc')
      rw [List.map_cons, performActs_cons]
      simp only [shownText_append, pieces, List.map_cons, List.flatten_cons] at hrest ⊢
      simp only [List.append_assoc] at hrest
      cases first <;> exact hrest

/-! ## §5  A truthful part -/

theorem partStep_out (rt : Runtime) (event : Mapping) : (partStep cfg rt event).1.out = rt.out := by
  unfold partStep
  split
  · split
    · exact handlePart_out cfg rt _
    · rfl
  · rfl

/-- The part's own events ask the session for nothing but progress and usage. -/
theorem sessionOps_part {eventType : Text} (event props : Mapping)
    (h : eventType = "message.part.delta".toList ∨ eventType = "message.part.updated".toList) :
    sessionOps cfg event eventType props = (progressOp? props).toList ++
      ((cfg.numerics.extractTokenUsage event).map Op.usage).toList := by
  have hrest : extractUpstreamErrorFromEvent eventType props = none ∧
      extractStreamTerminalSignal eventType props = none ∧
      extractInterruptAskedEvent eventType props = none ∧
      extractInterruptResolvedEvent eventType props = none := by
    rcases h with rfl | rfl <;>
      simp [extractUpstreamErrorFromEvent, extractStreamTerminalSignal, extractInterruptAskedEvent,
        extractInterruptResolvedEvent]
  obtain ⟨herror, hsignal, hasked, hresolved⟩ := hrest
  unfold sessionOps
  rw [herror, hsignal, hasked, hresolved]
  simp

theorem mem_progressOp? {op : Op} (h : op ∈ (progressOp? props).toList) :
    ∃ i q mid, op = .progress i q mid := by
  unfold progressOp? at h
  obtain ⟨part, -, hpart⟩ := Option.bind_eq_some_iff.mp (Option.mem_toList.mp h)
  obtain ⟨q, -, rfl⟩ := Option.map_eq_some_iff.mp hpart
  exact ⟨_, _, _, rfl⟩

/-- Progress shows no text and is no chunk. -/
theorem handleOps_progress (cfg : Config) (rt : Runtime) (props : Mapping) (ops : List Op) :
    ∃ out events, out.sawAnyChunk = rt.out.sawAnyChunk ∧ out.userText = rt.out.userText ∧
      shownText events = [] ∧
      handleOps cfg rt ((progressOp? props).toList ++ ops) =
        ((handleOps cfg { rt with out := out } ops).1,
          events ++ (handleOps cfg { rt with out := out } ops).2) := by
  cases hop : progressOp? props with
  | none => exact ⟨rt.out, [], rfl, rfl, rfl, rfl⟩
  | some op =>
      obtain ⟨i, q, mid, rfl⟩ := mem_progressOp? (Option.mem_toList.mpr hop)
      simp only [Option.toList_some, List.singleton_append, handleOps, Op.perform]
      cases hreg : rt.out.registerProgress i (cfg.dumps false q.toMapping) with
      | none => exact ⟨rt.out, [], rfl, rfl, rfl, rfl⟩
      | some out =>
          have hout : out.sawAnyChunk = rt.out.sawAnyChunk ∧ out.userText = rt.out.userText := by
            unfold StreamOutputState.registerProgress at hreg
            split_ifs at hreg
            cases hreg
            exact ⟨rfl, rfl⟩
          cases cfg.emitStreamingMetadata with
          | false => exact ⟨out, [], hout.1, hout.2, rfl, rfl⟩
          | true => exact ⟨out.nextSequence, _, hout.1, hout.2, rfl, rfl⟩

/-- Neither does usage. -/
theorem handleOps_usage (cfg : Config) (rt : Runtime) (usage : Option Mapping) (ops : List Op) :
    ∃ out, out.sawAnyChunk = rt.out.sawAnyChunk ∧ out.userText = rt.out.userText ∧
      handleOps cfg rt ((usage.map Op.usage).toList ++ ops) =
        handleOps cfg { rt with out := out } ops := by
  cases usage with
  | none => exact ⟨rt.out, rfl, rfl, rfl⟩
  | some u => exact ⟨rt.out.ingestTokenUsage u, rfl, rfl, rfl⟩

theorem EventOf.eventOps {eventType : String} (h : EventOf cfg p eventType event part props)
    (htype : eventType = "message.part.delta" ∨ eventType = "message.part.updated") :
    OpencodeA2a.Stream.eventOps cfg event =
      (if extractEventSessionId event = some cfg.sessionId then (progressOp? props).toList ++
          ((cfg.numerics.extractTokenUsage event).map Op.usage).toList
        else []) ++ ((partEvent? cfg eventType.toList props).map Op.part).toList := by
  unfold OpencodeA2a.Stream.eventOps
  rw [h.type, h.properties]
  simp only
  rw [sessionOps_part event props (by rcases htype with rfl | rfl <;> simp)]

/-- An event of the part, handled: a step of the part's own, whose chunks are
put one after the other. -/
theorem EventOf.handleOps {eventType : String} (h : EventOf cfg p eventType event part props)
    (htype : eventType = "message.part.delta" ∨ eventType = "message.part.updated")
    (rt : Runtime) :
    ∃ out before, out.sawAnyChunk = rt.out.sawAnyChunk ∧ out.userText = rt.out.userText ∧
      shownText before = [] ∧
      OpencodeA2a.Stream.handleOps cfg rt (OpencodeA2a.Stream.eventOps cfg event) =
        ({ (partStep cfg { rt with out := out } event).1 with
            out := (performActs cfg out
              ((partStep cfg { rt with out := out } event).2.map Act.chunk)).1 },
          before ++ (performActs cfg out
            ((partStep cfg { rt with out := out } event).2.map Act.chunk)).2) := by
  have hops := h.eventOps htype
  have hpart : ∀ rt : Runtime, OpencodeA2a.Stream.handleOps cfg rt
      ((partEvent? cfg eventType.toList props).map Op.part).toList =
      ({ (partStep cfg rt event).1 with
          out := (performActs cfg rt.out ((partStep cfg rt event).2.map Act.chunk)).1 },
        (performActs cfg rt.out ((partStep cfg rt event).2.map Act.chunk)).2) := by
    intro rt
    have hout : (partStep cfg rt event).1.out = rt.out := partStep_out rt event
    unfold partStep at hout ⊢
    rw [h.type, h.properties] at hout ⊢
    simp only at hout ⊢
    cases hev : partEvent? cfg eventType.toList props with
    | none => rfl
    | some e =>
        rw [hev] at hout
        simp only at hout
        simp only [Option.map_some, Option.toList_some, OpencodeA2a.Stream.handleOps, Op.perform,
          hout, List.append_nil]
  rw [hops]
  split_ifs
  · obtain ⟨out, before, hsaw, huser, hshown, heq⟩ := handleOps_progress cfg rt props
      (((cfg.numerics.extractTokenUsage event).map Op.usage).toList ++
        ((partEvent? cfg eventType.toList props).map Op.part).toList)
    obtain ⟨out', hsaw', huser', heq'⟩ := handleOps_usage cfg { rt with out := out }
      (cfg.numerics.extractTokenUsage event)
      ((partEvent? cfg eventType.toList props).map Op.part).toList
    refine ⟨out', before, hsaw'.trans hsaw, huser'.trans huser, hshown, ?_⟩
    rw [List.append_assoc, heq, heq', hpart]
  · exact ⟨rt.out, [], rfl, rfl, rfl, hpart rt⟩

theorem Reports.eventOf {text : Text} {u : Update} (h : Reports cfg p b text u event) :
    ∃ eventType part props, EventOf cfg p eventType event part props ∧
      (eventType = "message.part.delta" ∨ eventType = "message.part.updated") := by
  cases h with
  | delta he hfield hdelta => exact ⟨_, _, _, he, .inl rfl⟩
  | appended he ha hdelta hx => exact ⟨_, _, _, he, .inr rfl⟩
  | snapshot he ha hdelta htext => exact ⟨_, _, _, he, .inr rfl⟩

/-- What `consume` writes into the output state is no matter for the part. -/
theorem Tracks.withOut {known : Bool} {held : Option Text} {role : Option Role} {made : Text}
    (h : Tracks p b rt m known held role made) (out : StreamOutputState) :
    Tracks p b { rt with out := out } m known held role made := by
  cases h with
  | held hnew hpend hds hbuf hshown => exact .held hnew hpend hds hbuf hshown
  | known hst hpend hb hforeign hbuf => exact .known hst hpend hb hforeign hbuf

/-- The merger and the client along a truthful sequence of events. -/
theorem consume_truthful (hb : b ≠ .toolCall) {s₀ : StreamOutputState} {known : Bool}
    {held : Option Text} {role : Option Role} {shown made text : Text}
    {first : Option (Text × Option Role)} {us : List Update} {events : List Mapping}
    (ht : Truthful cfg p b text us events) (htext : m.text = text)
    (htracks : Tracks p b rt m known held role made) (hempty : m.shown = [] → m.buffer = [])
    (hhear : Hearing s₀ b rt.out shown made first) :
    ∃ held' role' made' first',
      Tracks p b (consume cfg rt events).1 (m.run isSpace (us.map Update.growth))
        (known || us.any Update.announces) held' role' made' ∧
      Hearing s₀ b (consume cfg rt events).1.out (shown ++ shownText (consume cfg rt events).2)
        made' first' ∧
      first' = first.orElse fun _ => firstPiece known held role text us := by
  induction ht generalizing rt m known held role shown made first with
  | nil text =>
      refine ⟨held, role, made, first, ?_, ?_, ?_⟩
      · simpa [consume, Merger.run] using htracks
      · simpa [consume, shownText] using hhear
      · cases first <;> rfl
  | @cons text u us event events hr hrest ih =>
      subst htext
      obtain ⟨eventType, part, props, he, htype⟩ := hr.eventOf
      obtain ⟨out, before, hsaw, huser, hbefore, hops⟩ := he.handleOps htype rt
      obtain ⟨rt', cs, held', role', hstep, htracks', hchunks, hfirst⟩ :=
        (htracks.withOut out).follows hb hempty hr
      rw [hstep] at hops
      simp only at hops
      -- the output state changes in nothing the client's hearing depends on
      have hhear₁ : Hearing s₀ b out shown made first := by
        cases hhear with
        | silent hs hu => exact .silent (hsaw.trans hs) (huser.trans hu)
        | heard hs hd hm => exact .heard (hsaw.trans hs) hd hm
        | missed hd hl => exact .missed hd hl
      have hhear₂ := hhear₁.chunks cfg hchunks
      have hnext : (m.next isSpace u.growth).text = m.text ++ u.added := by
        cases u with
        | delta x | appended x _ => rfl
        | snapshot x _ =>
            simp only [Merger.next, Update.growth]
            split_ifs <;> rfl
      have htracks₂ := htracks'.withOut (performActs cfg out (cs.map Act.chunk)).1
      obtain ⟨held'', role'', made'', first'', htracks'', hhear'', hfirst''⟩ :=
        ih hnext htracks₂ (Merger.next_shown_nil hempty u.growth) hhear₂
      refine ⟨held'', role'', made'', first'', ?_, ?_, ?_⟩
      · simp only [consume, hops, List.map_cons, Merger.run, List.any_cons]
        rw [← Bool.or_assoc]
        exact htracks''
      · simp only [consume, hops, shownText_append, hbefore, List.nil_append]
        rw [← List.append_assoc]
        exact hhear''
      · rw [hfirst'']
        cases first with
        | some f => rfl
        | none =>
            have hmade : made = [] := by
              cases hhear
              rfl
            rw [Option.orElse_none, Option.orElse_none, hfirst hmade us]
            cases (pieces cs).head? <;> rfl

/-! ## §6  Main result -/

/-- The text of the part after the updates. -/
def finalText (us : List Update) : Text := (us.map Update.added).flatten

/-- The stripped snapshots fit the deltas around them; the part is announced at
all, unless it stays blank; and its first piece is not taken for the user's
echo, which only a text without a role can be. -/
def Normalises (s : StreamOutputState) (b : BlockType) (us : List Update) : Prop :=
  (Alignment.run isSpace (.fresh []) (us.map Update.growth)).isSome = true ∧
    (us.any Update.announces = true ∨ (finalText us).Blank) ∧
    ∀ t role, firstPiece false none none [] us = some (t, role) →
      s.shouldDropInitialUserEcho t b role = false

theorem Alignment.run_deltas (seen : Text) {us : List Update}
    (h : us.any Update.announces = false) :
    (Alignment.run isSpace (.fresh seen) (us.map Update.growth)).isSome = true := by
  induction us generalizing seen with
  | nil => rfl
  | cons u us ih =>
      rw [List.any_cons, Bool.or_eq_false_iff] at h
      cases u with
      | delta x => exact ih (seen ++ x) h.2
      | appended x named => cases h.1
      | snapshot x named => cases h.1

/-- What the client is shown of a part that is reported truthfully is the part's
text, up to surrounding white space, exactly where the reports normalise. -/
theorem shown_text_faithful_iff {cfg : Config} {p : Text} {b : BlockType} (hb : b ≠ .toolCall)
    {rt : Runtime} (hnew : rt.partStates p = none) (hpend : rt.pendingDeltas p = [])
    {us : List Update} {events : List Mapping} (h : Truthful cfg p b [] us events) :
    (shownText (consume cfg rt events).2).strip = (finalText us).strip ↔
      Normalises rt.out b us := by
  have htracks : Tracks p b rt {} false none none [] :=
    .held hnew hpend (fun d hd => by cases hd) rfl rfl
  obtain ⟨held, role, made, first, htr, hhear, hfirst⟩ :=
    consume_truthful hb h rfl htracks (fun _ => rfl) (.silent rfl rfl)
  simp only [List.nil_append, Option.orElse_none, Bool.false_or] at hhear hfirst htr
  have hholds : Alignment.Holds isSpace (.fresh []) ({} : Merger Char) := .fresh rfl
  have haligned := hholds.faithful_iff (us.map Update.growth)
  have htext : (Merger.run isSpace {} (us.map Update.growth)).text = finalText us := by
    rw [Merger.run_text, List.map_map]
    rfl
  have hlevel := Merger.level_run hholds.level (us.map Update.growth)
  unfold Merger.Faithful at haligned
  rw [htext] at haligned
  unfold Normalises
  rw [← haligned]
  generalize shownText (consume cfg rt events).2 = shown at hhear
  generalize Merger.run isSpace {} (us.map Update.growth) = m at *
  generalize hann : us.any Update.announces = known at *
  cases htr with
  | held hnew' hpend' hds hbuf hshown =>
      -- never announced: no chunk was made
      cases hhear with
      | silent =>
          have hrun := Alignment.run_deltas [] hann
          refine ⟨fun hs => ⟨haligned.mpr hrun, .inr ?_, ?_⟩, ?_⟩
          · exact Text.blank_iff.mpr hs.symm
          · intro t role hpiece
            rw [← hfirst] at hpiece
            cases hpiece
          · rintro ⟨-, hblank, -⟩
            rcases hblank with hcon | hblank
            · cases hcon
            · exact (Text.blank_iff.mp hblank).symm
      | heard _ _ hmade => exact absurd rfl hmade
      | missed _ hless => exact absurd hless (Nat.not_lt_zero _)
  | known hst hpend' hblock hforeign hbuf =>
      generalize hm : m.shown = made at hhear
      cases hhear with
      | silent =>
          refine ⟨fun hs => ⟨hs, .inl rfl, ?_⟩, fun hs => hs.1⟩
          intro t role hpiece
          rw [← hfirst] at hpiece
          cases hpiece
      | heard _ hdrop _ =>
          refine ⟨fun hs => ⟨hs, .inl rfl, ?_⟩, fun hs => hs.1⟩
          intro t role hpiece
          rw [← hfirst] at hpiece
          cases hpiece
          exact hdrop
      | @missed shown made t role hdrop hless =>
          -- the echo that was dropped is missing for good
          have hle := hlevel.shown
          rw [hm, htext] at hle
          refine ⟨fun hs => ?_, fun hs => ?_⟩
          · exact absurd hs (Strip.strip_ne_of_solid_lt (Nat.lt_of_lt_of_le hless hle))
          · have := hs.2.2 t role hfirst.symm
            rw [hdrop] at this
            cases this

/-! The events of the examples: part `prt-1` of `session-1`. -/

def exampleConfig : Config :=
  { sessionId := "session-1".toList, taskId := "task-1".toList, allowStructuredOutput := true,
    emitSessionMetadata := true, emitStreamingMetadata := true, emitInterruptMetadata := true,
    dumps := fun _ _ => [], numerics := .integers }

def exampleRuntime : Runtime :=
  { out := { userText := "hi".toList, stableMessageId := "message".toList,
             eventIdNamespace := "events".toList } }

def deltaEvent (x : String) : Mapping :=
  [("type".toList, .str "message.part.delta".toList),
    ("properties".toList, .obj
      [("sessionID".toList, .str "session-1".toList), ("partID".toList, .str "prt-1".toList),
        ("field".toList, .str "text".toList), ("delta".toList, .str x.toList)])]

def snapshotEvent (text : String) : Mapping :=
  [("type".toList, .str "message.part.updated".toList),
    ("properties".toList, .obj
      [("part".toList, .obj
        [("id".toList, .str "prt-1".toList), ("sessionID".toList, .str "session-1".toList),
          ("type".toList, .str "text".toList), ("role".toList, .str "assistant".toList),
          ("text".toList, .str text.toList)])])]

theorem reports_deltaEvent (text : Text) (x : String) :
    Reports exampleConfig "prt-1".toList .text text (.delta x.toList) (deltaEvent x) :=
  .delta ⟨rfl, rfl, rfl, rfl, rfl⟩ rfl rfl

theorem reports_snapshotEvent {text x : Text} {whole : String} (h : whole.toList = text ++ x) :
    Reports exampleConfig "prt-1".toList .text text (.snapshot x true) (snapshotEvent whole) :=
  .snapshot ⟨rfl, rfl, rfl, rfl, rfl⟩ ⟨rfl, rfl⟩ rfl (congrArg some h)

theorem snapshots_and_deltas_agree :
    (shownText (consume exampleConfig exampleRuntime
      [snapshotEvent "Hel", deltaEvent "lo", snapshotEvent "Hello world"]).2).strip =
        (finalText [.snapshot "Hel".toList true, .delta "lo".toList,
          .snapshot " world".toList true]).strip := by
  refine (shown_text_faithful_iff (b := .text) (p := "prt-1".toList) (by decide) rfl rfl ?_).mpr ?_
  · exact .cons (reports_snapshotEvent (by decide)) (.cons (reports_deltaEvent _ "lo")
      (.cons (reports_snapshotEvent (by decide)) (.nil _)))
  · refine ⟨by decide, by decide, ?_⟩
    intro t role h
    cases h
    decide

/-- The blank at the end of the first snapshot is stripped and never shown. -/
theorem stripped_blank_is_lost :
    Truthful exampleConfig "prt-1".toList .text []
        [.snapshot "Hello ".toList true, .delta "world".toList]
        [snapshotEvent "Hello ", deltaEvent "world"] ∧
      (shownText (consume exampleConfig exampleRuntime
        [snapshotEvent "Hello ", deltaEvent "world"]).2).strip = "Helloworld".toList ∧
      (finalText [.snapshot "Hello ".toList true, .delta "world".toList]).strip =
        "Hello world".toList ∧ "Helloworld".toList ≠ "Hello world".toList := by
  refine ⟨?_, by decide, by decide, by decide⟩
  exact .cons (reports_snapshotEvent (by decide)) (.cons (reports_deltaEvent _ "world") (.nil _))

end OpencodeA2a.Stream
